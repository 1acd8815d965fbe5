import WorldClock.Proofs.CatchUp
import WorldClock.Proofs.Manager.Trail

/-!
# Simulated time never runs ahead

A world that was created at some instant may have made its `n`-th tick `n` tick intervals later at
the earliest (`Timeline.dueAt`). It keeps to that in every state: a paused world was due at its mark
already, a world that catches up will be due now with all that it still owes, and a running world
was due at the start of its steady loop but for the ticks of that loop. The same holds of what the
log tells, so a process that dies gives nothing away to the next one.

The one thing that is assumed of the timer is that a steady tick never comes early
(`Manager.IsPunctual`). It is said of the wall clock, by watching when a loop begins and how many
ticks it has made.
-/

namespace WorldClock

/-! ### Watching steady loops -/

/-- A loop of steady ticks: when it began, and how many ticks it has made. -/
structure SteadyLoop where
  startedAt : Instant
  ticks : Nat

def Phase.beginsLoop (before after : Phase) : Bool :=
  after.isWaiting && !before.isWaiting && !before.isSteadyTick

def SteadyLoop.next (m : Moment) (before after : Phase) (loop : Option SteadyLoop) :
    Option SteadyLoop :=
  if before.beginsLoop after then some ⟨m.wall, 0⟩
  else if before.beginsTick after then loop.map fun l => { l with ticks := l.ticks + 1 }
  else loop

/-- The loop of a ticker, which may have started or gone, after a step at some moment. -/
def SteadyLoop.watch (m : Moment) (before after : Option Phase) (loop : Option SteadyLoop) :
    Option SteadyLoop :=
  match before, after with
  | some before, some after => SteadyLoop.next m before after loop
  | _, _ => loop

/-- Whether a step of a ticker at some instant is no early tick of a steady loop: the `k`-th tick is
made `k` tick intervals after the start of the loop, or later. -/
def SteadyLoop.IsInTime (interval : Duration) (before after : Option Phase)
    (loop : Option SteadyLoop) (now : Instant) : Prop :=
  match before, after, loop with
  | some before, some after, some l =>
    before.beginsTick after = true →
      l.startedAt.nanos + ((l.ticks + 1) * interval.nanos : Nat) ≤ now.nanos
  | _, _, _ => True

instance (interval : Duration) (before after : Option Phase) (loop : Option SteadyLoop)
    (now : Instant) : Decidable (SteadyLoop.IsInTime interval before after loop now) :=
  match before, after, loop with
  | some before, some after, some l =>
    inferInstanceAs (Decidable (before.beginsTick after = true →
      l.startedAt.nanos + ((l.ticks + 1) * interval.nanos : Nat) ≤ now.nanos))
  | none, _, _ | some _, none, _ | some _, some _, none => isTrue trivial

namespace Manager

def watch (p : Manager) (a : WorldId) (loop : Option SteadyLoop) (i : Incident) :
    Option SteadyLoop :=
  match i with
  | .move m _ => SteadyLoop.watch m (p.phase? a) ((p.meet i).phase? a) loop
  | .death _ _ => loop

/-- In a course no steady tick of a world comes early. -/
def IsPunctual (a : WorldId) (interval : Duration) :
    Manager → Option SteadyLoop → List Incident → Prop
  | _, _, [] => True
  | p, loop, i :: course =>
    (∀ now ∈ i.wall?, SteadyLoop.IsInTime interval (p.phase? a) ((p.meet i).phase? a) loop now) ∧
    IsPunctual a interval (p.meet i) (p.watch a loop i) course

instance decidableIsPunctual (a : WorldId) (interval : Duration) (p : Manager)
    (loop : Option SteadyLoop) (course : List Incident) :
    Decidable (IsPunctual a interval p loop course) :=
  match course with
  | [] => isTrue trivial
  | i :: course =>
    have := decidableIsPunctual a interval (p.meet i) (p.watch a loop i) course
    inferInstanceAs (Decidable (_ ∧ _))

end Manager

/-! ### What is due -/

/-- The earliest instant, in nanoseconds, at which a world may have made so many ticks. -/
def Timeline.dueAt (t : Timeline) (interval : Duration) (ticks : Nat) : Int :=
  t.createdAt.nanos + (ticks * interval.nanos : Nat)

namespace Timeline

variable {t : Timeline} {interval : Duration}

theorem dueAt_mono (t : Timeline) (interval : Duration) {n k : Nat} (h : n ≤ k) :
    t.dueAt interval n ≤ t.dueAt interval k := by
  have := Nat.mul_le_mul_right interval.nanos h
  simp only [dueAt]
  omega

theorem dueAt_add (n k : Nat) :
    t.dueAt interval (n + k) = t.dueAt interval n + (k * interval.nanos : Nat) := by
  simp only [dueAt, Nat.add_mul]
  omega

theorem createdAt_after (t : Timeline) (e : Event) (d : Details) :
    (t.after e d).createdAt = t.createdAt := by
  cases d <;> rfl

theorem dueAt_after (t : Timeline) (e : Event) (d : Details) (n : Nat) :
    (t.after e d).dueAt interval n = t.dueAt interval n := by
  rw [dueAt, createdAt_after, dueAt]

theorem lastEventAt_after (t : Timeline) (e : Event) (d : Details) :
    (t.after e d).lastEventAt = e.timestamp := by
  cases d <;> rfl

end Timeline

theorem SteadyLoop.next_eq {m : Moment} {before after : Phase} {loop : Option SteadyLoop}
    (hbegins : before.beginsLoop after = false) (htick : before.beginsTick after = false) :
    SteadyLoop.next m before after loop = loop := by
  simp [SteadyLoop.next, hbegins, htick]

theorem SteadyLoop.next_self (m : Moment) (phase : Phase) (loop : Option SteadyLoop) :
    SteadyLoop.next m phase phase loop = loop := by
  refine SteadyLoop.next_eq ?_ ?_
  · cases h : phase.isWaiting <;> simp [Phase.beginsLoop, h]
  · cases phase <;> rfl

theorem SteadyLoop.watch_self (m : Moment) (phase : Option Phase) (loop : Option SteadyLoop) :
    SteadyLoop.watch m phase phase loop = loop := by
  cases phase with
  | none => rfl
  | some phase => exact SteadyLoop.next_self m phase loop

namespace Ticker

/-- What a ticker has made and what it owes was due by now; what it has made beyond its steady loop
was due when the loop began. -/
structure Timely (t : Timeline) (interval : Duration) (now : Instant) (loop : Option SteadyLoop)
    (phase : Phase) (entry : World) : Prop where
  owed : t.dueAt interval (entry.tickCount.toNat + phase.owed) ≤ now.nanos
  steady : phase.isWaiting = true ∨ phase.isSteadyTick = true → ∃ l, loop = some l ∧
    t.dueAt interval entry.tickCount.toNat ≤ l.startedAt.nanos + (l.ticks * interval.nanos : Nat)

variable {w : Wiring} {m : Moment} {tl : Timeline} {interval : Duration} {now : Instant}
  {loop : Option SteadyLoop} {t t' : Ticker} {entry entry' : World}

/-- A ticker that goes on outside a steady loop and comes to owe no more. -/
theorem Timely.move {phase phase' : Phase} (h : Timely tl interval now loop phase entry)
    (hnow : now ≤ m.wall) {loop' : Option SteadyLoop}
    (hticks : entry'.tickCount.toNat + phase'.owed ≤ entry.tickCount.toNat + phase.owed)
    (hwaiting : phase'.isWaiting = false) (htick : phase'.isSteadyTick = false) :
    Timely tl interval m.wall loop' phase' entry' := by
  have hnow' : now.nanos ≤ m.wall.nanos := hnow
  have howed := h.owed
  have hmono := tl.dueAt_mono interval hticks
  refine ⟨by omega, fun hsteady => ?_⟩
  simp [hwaiting, htick] at hsteady

theorem Timely.begin {phase phase' : Phase} (h : Timely tl interval now loop phase entry)
    (hnow : now ≤ m.wall) (howed : phase'.owed = 0) (hbegins : phase.beginsLoop phase' = true) :
    Timely tl interval m.wall (SteadyLoop.next m phase phase' loop) phase' entry := by
  have hnow' : now.nanos ≤ m.wall.nanos := hnow
  have hdue := Int.le_trans
    (tl.dueAt_mono interval (Nat.le_add_right entry.tickCount.toNat phase.owed)) h.owed
  rw [SteadyLoop.next, if_pos hbegins]
  refine ⟨?_, fun _ => ⟨_, rfl, ?_⟩⟩
  · rw [howed, Nat.add_zero]
    exact Int.le_trans hdue hnow'
  · rw [Nat.zero_mul]
    exact Int.le_trans hdue (by simpa using hnow')

/-- A ticker that goes on inside a tick or after one. -/
theorem Timely.go {phase phase' : Phase} (h : Timely tl interval now loop phase entry)
    (hnow : now ≤ m.wall) (howed : phase'.owed ≤ phase.owed)
    (hcount : entry'.tickCount = entry.tickCount) (hwaiting : phase.isWaiting = false)
    (hsteady : phase'.isWaiting = true ∨ phase'.isSteadyTick = true → phase.isSteadyTick = true) :
    Timely tl interval m.wall (SteadyLoop.next m phase phase' loop) phase' entry' := by
  have hnow' : now.nanos ≤ m.wall.nanos := hnow
  have hdue := tl.dueAt_mono interval (Nat.add_le_add_left howed entry.tickCount.toNat)
  have hbefore := h.owed
  have htick : phase.beginsTick phase' = false := by simp [Phase.beginsTick, hwaiting]
  have hbegins : phase.beginsLoop phase' = false := by
    cases hafter : phase'.isWaiting with
    | false => simp [Phase.beginsLoop, hafter]
    | true => simp [Phase.beginsLoop, hsteady (.inl hafter)]
  rw [SteadyLoop.next_eq hbegins htick]
  refine ⟨by rw [hcount]; omega, fun hafter => ?_⟩
  rw [hcount]
  exact h.steady (.inr (hsteady hafter))

theorem steady_restAfter {w : Wiring} {cause : TickCause}
    (h : (restAfter w cause).isWaiting = true ∨ (restAfter w cause).isSteadyTick = true) :
    cause.isCatchUp = false := by
  cases cause with
  | due next => rfl
  | owed run =>
    simp only [restAfter] at h
    split at h <;> simp [Phase.isWaiting, Phase.isSteadyTick] at h

/-- The beginning of a tick: one more was due, or is owed no more. -/
theorem Timely.tick {cause : TickCause} {phase' : Phase}
    (h : Timely tl interval now loop t.phase entry) (hnow : now ≤ m.wall)
    (hbegins : t.Begins w m cause)
    (hpunctual : SteadyLoop.IsInTime interval (some t.phase) (some phase') loop m.wall)
    (hwaiting : phase'.isWaiting = false) (hsteady : phase'.isSteadyTick = !cause.isCatchUp)
    (howed : phase'.owed = cause.remaining)
    (hcount : entry'.tickCount = entry.tickCount.next) :
    Timely tl interval m.wall (SteadyLoop.next m t.phase phase' loop) phase' entry' := by
  have hnext : entry'.tickCount.toNat ≤ entry.tickCount.toNat + 1 := by
    rw [hcount, Count.toNat_next]
    omega
  cases hbegins with
  | @owed run hphase hpending hstop =>
    have hlt : run.applied.toNat < run.plan.units.toNat := UInt64.lt_iff_toNat_lt.mp hpending
    refine h.move hnow ?_ hwaiting hsteady
    rw [howed, hphase]
    simp only [Phase.owed, TickCause.remaining]
    omega
  | @due due hphase hstop hdue =>
    have htick : t.phase.beginsTick phase' = true := by
      rw [Phase.beginsTick, hphase, hsteady]
      rfl
    have hloop : t.phase.beginsLoop phase' = false := by
      simp [Phase.beginsLoop, hwaiting]
    obtain ⟨l, hl, hstart⟩ := h.steady (.inl (by rw [hphase]; rfl))
    rw [hl] at hpunctual
    have hwall := hpunctual htick
    -- The world was due when its loop began but for the ticks of the loop, and the timer has not
    -- given the next one early.
    have hreached : tl.dueAt interval entry'.tickCount.toNat ≤
        l.startedAt.nanos + ((l.ticks + 1) * interval.nanos : Nat) :=
      calc tl.dueAt interval entry'.tickCount.toNat
          ≤ tl.dueAt interval (entry.tickCount.toNat + 1) := tl.dueAt_mono interval hnext
        _ = tl.dueAt interval entry.tickCount.toNat + (1 * interval.nanos : Nat) :=
          Timeline.dueAt_add _ 1
        _ ≤ l.startedAt.nanos + (l.ticks * interval.nanos : Nat) + (1 * interval.nanos : Nat) :=
          Int.add_le_add_right hstart _
        _ = l.startedAt.nanos + ((l.ticks + 1) * interval.nanos : Nat) := by
          rw [Nat.add_mul]
          omega
    rw [SteadyLoop.next, if_neg (by simp [hloop]), if_pos htick, hl]
    refine ⟨?_, fun _ => ⟨_, rfl, hreached⟩⟩
    rw [howed, TickCause.remaining, Nat.add_zero]
    exact Int.le_trans hreached hwall

theorem Goes.timely (hgoes : Goes w m t entry t' entry')
    (h : Timely tl interval now loop t.phase entry) (hnow : now ≤ m.wall)
    (hpunctual : SteadyLoop.IsInTime interval (some t.phase) (some t'.phase) loop m.wall) :
    Timely tl interval m.wall (SteadyLoop.next m t.phase t'.phase loop) t'.phase entry' := by
  cases hgoes with
  | begin hphase => exact h.begin hnow rfl (by rw [hphase]; rfl)
  | beginReplay hphase =>
    refine h.move hnow ?_ rfl rfl
    rw [hphase]
    exact Nat.le_refl _
  | @tick cause hbegins =>
    exact h.tick hnow hbegins hpunctual rfl rfl rfl rfl
  | @tickUnpublished cause hbegins =>
    exact h.tick hnow hbegins hpunctual rfl rfl rfl rfl
  | @published cause world hphase =>
    rw [hphase] at h ⊢
    exact h.go hnow (Nat.le_refl _) rfl rfl
      (by rintro (⟨⟨⟩⟩ | hsteady); exact hsteady)
  | @recorded cause gameTime filing r r' hphase =>
    rw [hphase] at h ⊢
    refine h.go hnow (Nat.le_of_eq (owed_restAfter w cause)) rfl rfl fun hsteady => ?_
    simp [Phase.isSteadyTick, steady_restAfter hsteady]
  | @asked cause gameTime filing r r' hphase =>
    rw [hphase] at h ⊢
    exact h.go hnow (Nat.le_refl _) rfl rfl
      (by rintro (⟨⟨⟩⟩ | hsteady); exact hsteady)
  | @weathered cause synthetic season hphase =>
    rw [hphase] at h ⊢
    refine h.go hnow (Nat.le_of_eq (owed_restAfter w cause)) rfl rfl fun hsteady => ?_
    simp [Phase.isSteadyTick, steady_restAfter hsteady]
  | goOn hphase | endReplay hphase =>
    refine h.move hnow ?_ rfl rfl
    rw [hphase]
    exact Nat.le_refl _
  | @interrupt run hphase hpending =>
    refine h.move hnow ?_ rfl rfl
    rw [hphase]
    simp [Phase.owed, CatchUpRun.pending]
  | complete hphase hpending =>
    refine h.move hnow ?_ rfl rfl
    obtain heq | ⟨-, heq⟩ := World.markRunning_eq entry <;> rw [heq] <;>
      exact Nat.add_le_add_left (Nat.zero_le _) _
  | resumed hphase => exact h.begin hnow rfl (by rw [hphase]; rfl)
  | halt hphase => exact h.move hnow (Nat.add_le_add_left (Nat.zero_le _) _) rfl rfl
  | crash culprit => exact h.move hnow (Nat.add_le_add_left (Nat.zero_le _) _) rfl rfl

theorem Timely.mono {phase : Phase} (h : Timely tl interval now loop phase entry) {now' : Instant}
    (hnow : now ≤ now') {entry' : World} (hcount : entry'.tickCount = entry.tickCount) :
    Timely tl interval now' loop phase entry' := by
  refine ⟨?_, ?_⟩
  · rw [hcount]
    exact Int.le_trans h.owed hnow
  · rw [hcount]
    exact h.steady

end Ticker

namespace View

/-- An append that the ticker or the errand of a view waits for. -/
def Awaits (v : View) (f : Filing) : Prop :=
  (∃ t, v.ticker = some t ∧ t.filing? = some f) ∨ ∃ e, v.errand = some e ∧ e.filing? = some f

/-- The ticks that a world has made and owes, and those that its history tells, were due. -/
structure Timely (a : WorldId) (interval : Duration) (now : Instant) (loop : Option SteadyLoop)
    (v : View) : Prop where
  entry : ∀ t e, Story a v.events t → v.entry = some e →
    t.dueAt interval e.tickCount.toNat ≤ now.nanos ∧
      ∀ p, e.pausedAt = some p → t.dueAt interval e.tickCount.toNat ≤ p.nanos
  ticker : ∀ t e tk, Story a v.events t → v.entry = some e → v.ticker = some tk →
    Ticker.Timely t interval now loop tk.phase e
  timeline : ∀ t, Story a v.events t →
    t.dueAt interval t.tickCount.toNat ≤ t.lastEventAt.nanos ∧ t.lastEventAt ≤ now ∧
      ∀ p, t.pausedAt = some p → t.dueAt interval t.tickCount.toNat ≤ p.nanos
  filing : ∀ f, v.Awaits f → f.event.timestamp ≤ now ∧ ∀ t, Story a v.events t →
    t.lastEventAt ≤ f.event.timestamp ∧ ∀ e, v.entry = some e →
      t.dueAt interval e.tickCount.toNat ≤ f.event.timestamp.nanos

variable {w : Wiring} {m : Moment} {a : WorldId} {v v' : View} {interval : Duration} {now : Instant}
  {loop : Option SteadyLoop}

/-- The entry and the timeline of a view at a later instant. -/
theorem Timely.entry_mono (h : v.Timely a interval now loop) {now' : Instant} (hnow : now ≤ now') :
    ∀ t e, Story a v.events t → v.entry = some e →
      t.dueAt interval e.tickCount.toNat ≤ now'.nanos ∧
        ∀ p, e.pausedAt = some p → t.dueAt interval e.tickCount.toNat ≤ p.nanos := by
  intro t e ht he
  obtain ⟨hdue, hpaused⟩ := h.entry t e ht he
  exact ⟨Int.le_trans hdue hnow, hpaused⟩

theorem Timely.timeline_mono (h : v.Timely a interval now loop) {now' : Instant}
    (hnow : now ≤ now') : ∀ t, Story a v.events t →
      t.dueAt interval t.tickCount.toNat ≤ t.lastEventAt.nanos ∧ t.lastEventAt ≤ now' ∧
        ∀ p, t.pausedAt = some p → t.dueAt interval t.tickCount.toNat ≤ p.nanos := by
  intro t ht
  obtain ⟨hlast, hbefore, hpaused⟩ := h.timeline t ht
  exact ⟨hlast, Int.le_trans hbefore hnow, hpaused⟩

/-- An append that has just begun. -/
theorem Timely.filing_start (h : v.Timely a interval now loop) (hnow : now ≤ m.wall) {f : Filing}
    (hstamp : f.event.timestamp = m.wall) {entry : Option World}
    (hentry : ∀ t e, Story a v.events t → entry = some e →
      t.dueAt interval e.tickCount.toNat ≤ m.wall.nanos) :
    f.event.timestamp ≤ m.wall ∧ ∀ t, Story a v.events t →
      t.lastEventAt ≤ f.event.timestamp ∧ ∀ e, entry = some e →
        t.dueAt interval e.tickCount.toNat ≤ f.event.timestamp.nanos := by
  rw [hstamp]
  refine ⟨Int.le_refl _, fun t ht => ⟨?_, fun e he => hentry t e ht he⟩⟩
  exact Int.le_trans (h.timeline t ht).2.1 hnow

/-- Time goes on, and a view stays as it is. -/
theorem Timely.mono (h : v.Timely a interval now loop) {now' : Instant} (hnow : now ≤ now') :
    v.Timely a interval now' loop where
  entry := h.entry_mono hnow
  ticker t e tk ht he htk := (h.ticker t e tk ht he htk).mono hnow rfl
  timeline := h.timeline_mono hnow
  filing f hf := by
    obtain ⟨hstamp, hstory⟩ := h.filing f hf
    exact ⟨Int.le_trans hstamp hnow, hstory⟩

/-- A view whose errand goes on without an append and whose ticker stays or goes. -/
theorem Timely.idle (h : v.Timely a interval now loop) (hnow : now ≤ m.wall)
    {ticker : Option Ticker} (hticker : ∀ tk, ticker = some tk → ∃ tk', v.ticker = some tk' ∧
      tk.phase = tk'.phase) {errand : Option Errand}
    (herrand : ∀ e, errand = some e → e.filing? = none) :
    (View.mk v.entry ticker errand v.events).Timely a interval m.wall loop where
  entry := h.entry_mono hnow
  ticker t e tk ht he htk := by
    obtain ⟨tk', htk', hphase⟩ := hticker tk htk
    rw [hphase]
    exact (h.ticker t e tk' ht he htk').mono hnow rfl
  timeline := h.timeline_mono hnow
  filing f hf := by
    obtain ⟨tk, htk, hfiling⟩ | ⟨e, he, hfiling⟩ := hf
    · obtain ⟨tk', htk', hphase⟩ := hticker tk htk
      have hfiling' : tk'.filing? = some f := by
        rw [Ticker.filing?, ← hphase]
        exact hfiling
      obtain ⟨hstamp, hstory⟩ := h.filing f (.inl ⟨tk', htk', hfiling'⟩)
      exact ⟨Int.le_trans hstamp hnow, hstory⟩
    · simp [herrand e he] at hfiling

theorem timely_paused (hinterval : w.clock.tickInterval = interval)
    (h : v.Timely a interval now loop) (hnow : now ≤ m.wall) {entry : World}
    (hentry : v.entry = some entry) {version pending : Count}
    (howed : ∀ t, Story a v.events t →
      t.dueAt interval (entry.tickCount.toNat + pending.toNat) ≤ now.nanos) :
    (v.paused w m a entry version pending).Timely a interval m.wall loop := by
  have hdue : ∀ t e, Story a v.events t → some (World.paused (m.wall.backDated
      w.clock.tickInterval pending) entry) = some e →
        t.dueAt interval e.tickCount.toNat ≤ m.wall.nanos := by
    intro t e ht heq
    cases heq
    exact Int.le_trans (h.entry t entry ht hentry).1 hnow
  refine ⟨fun t e ht he => ⟨hdue t e ht he, ?_⟩, by rintro t e tk ht he ⟨⟩,
    h.timeline_mono hnow, ?_⟩
  · rintro p hp
    cases he
    cases hp
    have hback := Int.le_trans (howed t ht) hnow
    rw [Timeline.dueAt_add] at hback
    rw [hinterval]
    have hmin := t.createdAt.min_le
    -- Going back may end at the earliest instant, and no world was created before that.
    refine Instant.le_backDated ?_ hback
    simp only [Timeline.dueAt]
    omega
  · rintro f (⟨tk, ⟨⟩, -⟩ | ⟨e, ⟨⟩, ⟨⟩⟩)
    exact h.filing_start hnow rfl hdue

/-- What a resumed world owes was missed since its mark. -/
theorem owed_plan {interval : Duration} {t : Timeline} {known : World} {n : Nat}
    (hnow : now ≤ m.wall) (hdue : t.dueAt interval n ≤ now.nanos)
    (hpaused : ∀ p, known.pausedAt = some p → t.dueAt interval n ≤ p.nanos) :
    t.dueAt interval (n + (Phase.starting (known.planAt interval m.wall)).owed) ≤ m.wall.nanos := by
  have hnow' : now.nanos ≤ m.wall.nanos := hnow
  rw [World.planAt]
  split
  · next pausedAt _ hpausedAt =>
    have hunits := CatchUpPlan.units_mul_le pausedAt m.wall interval
    have hmark := hpaused pausedAt hpausedAt
    rw [Timeline.dueAt_add, Phase.owed]
    omega
  · exact Int.le_trans hdue hnow'

theorem timely_takenUp (hinterval : w.clock.tickInterval = interval)
    (h : v.Timely a interval now loop) (hnow : now ≤ m.wall) {order : SpawnOrder} {known : World}
    (hentry : v.entry = some known) {version : Count} {weatherSyncedAt : Duration} {t : Ticker}
    (hnew : Ticker.new? w.clock a order.dilation version weatherSyncedAt
      (known.planAt w.clock.tickInterval m.wall) = some t) :
    (v.takenUp w m order known known t).Timely a interval m.wall loop := by
  obtain ⟨delta, -, rfl⟩ := Option.map_eq_some_iff.mp hnew
  refine ⟨?_, ?_, h.timeline_mono hnow, ?_⟩
  · intro tl e ht heq
    cases heq
    refine ⟨Int.le_trans (h.entry tl known ht hentry).1 hnow, ?_⟩
    intro p heq
    cases heq
  · intro tl e tk ht heq hsame
    cases heq
    cases hsame
    obtain ⟨hdue, hpaused⟩ := h.entry tl known ht hentry
    refine ⟨?_, by rintro (⟨⟨⟩⟩ | ⟨⟨⟩⟩)⟩
    rw [hinterval]
    exact owed_plan hnow hdue hpaused
  · rintro f (⟨tk, ⟨⟩, ⟨⟩⟩ | ⟨e, ⟨⟩, -⟩)

/-- A view whose history the log has been given an event for. -/
theorem Timely.filed (h : v.Timely a interval now loop) (hnow : now ≤ m.wall) {f f' : Filing}
    {events' : List Event} {d : Details} (hfiles : f.Files v.events f' events')
    (hstory : ∃ t, Story a v.events t) (htells : f.event.Tells a d) (hawaits : v.Awaits f)
    (hticks : ∀ t, Story a v.events t →
      t.dueAt interval (t.after f.event d).tickCount.toNat ≤ f.event.timestamp.nanos ∧
        ∀ p, (t.after f.event d).pausedAt = some p →
          t.dueAt interval (t.after f.event d).tickCount.toNat ≤ p.nanos)
    {ticker : Option Ticker} {errand : Option Errand}
    (hticker : ∀ tk, ticker = some tk → ∃ tk', v.ticker = some tk' ∧
      tk.phase.owed = tk'.phase.owed ∧ tk.phase.isWaiting = tk'.phase.isWaiting ∧
        tk.phase.isSteadyTick = tk'.phase.isSteadyTick)
    (hfiling : ∀ g, (View.mk v.entry ticker errand events').Awaits g → g.event = f.event) :
    (View.mk v.entry ticker errand events').Timely a interval m.wall loop := by
  have hcases : ∀ t', Story a events' t' → Story a v.events t' ∨
      ∃ t, Story a v.events t ∧ t' = t.after f.event d := by
    intro t' ht'
    obtain ⟨hold, -⟩ | ⟨hold, -⟩ | hnew := hfiles.story_cases hstory htells ht'
    · exact .inl hold
    · exact .inl hold
    · exact .inr hnew
  obtain ⟨hstamp, hbefore⟩ := h.filing f hawaits
  refine ⟨fun t' e ht' he => ?_, fun t' e tk ht' he htk => ?_, fun t' ht' => ?_, fun g hg => ?_⟩
  · obtain hold | ⟨t, hold, rfl⟩ := hcases t' ht'
    · exact h.entry_mono hnow t' e hold he
    · simp only [Timeline.dueAt_after]
      exact h.entry_mono hnow t e hold he
  · obtain ⟨tk', htk', howed, hwaiting, hsteady⟩ := hticker tk htk
    have hsame : ∀ t, Story a v.events t → Ticker.Timely t interval m.wall loop tk.phase e := by
      intro t ht
      obtain ⟨hdue, hloop⟩ := (h.ticker t e tk' ht he htk').mono hnow rfl
      exact ⟨by rwa [howed], by rwa [hwaiting, hsteady]⟩
    obtain hold | ⟨t, hold, rfl⟩ := hcases t' ht'
    · exact hsame t' hold
    · obtain ⟨hdue, hloop⟩ := hsame t hold
      exact ⟨by rwa [Timeline.dueAt_after], by simpa only [Timeline.dueAt_after] using hloop⟩
  · obtain hold | ⟨t, hold, rfl⟩ := hcases t' ht'
    · exact h.timeline_mono hnow t' hold
    · obtain ⟨hdue, hmark⟩ := hticks t hold
      rw [Timeline.lastEventAt_after]
      simp only [Timeline.dueAt_after]
      exact ⟨hdue, Int.le_trans hstamp hnow, hmark⟩
  · rw [hfiling g hg]
    refine ⟨Int.le_trans hstamp hnow, fun t' ht' => ?_⟩
    obtain hold | ⟨t, hold, rfl⟩ := hcases t' ht'
    · exact hbefore t' hold
    · rw [Timeline.lastEventAt_after]
      simp only [Timeline.dueAt_after]
      exact ⟨Int.le_refl _, (hbefore t hold).2⟩

/-- The log has been given the event that the errand of a world without a ticker waits for. -/
theorem Timely.errandFiled (h : v.Timely a interval now loop) (hnow : now ≤ m.wall)
    {f f' : Filing} {e e' : Errand} (herrand : v.errand = some e) (hbefore : e.filing? = some f)
    (hafter : e'.filing? = some f') {events' : List Event} {d : Details}
    (hfiles : f.Files v.events f' events') (hstory : ∃ t, Story a v.events t)
    (htells : f.event.Tells a d)
    (hticks : ∀ t, Story a v.events t →
      t.dueAt interval (t.after f.event d).tickCount.toNat ≤ f.event.timestamp.nanos ∧
        ∀ p, (t.after f.event d).pausedAt = some p →
          t.dueAt interval (t.after f.event d).tickCount.toNat ≤ p.nanos) :
    (View.mk v.entry none (some e') events').Timely a interval m.wall loop := by
  refine h.filed hnow hfiles hstory htells (.inr ⟨e, herrand, hbefore⟩) hticks
    (by rintro tk ⟨⟩) ?_
  rintro g (⟨tk, htk, -⟩ | ⟨e'', he, hg⟩)
  · cases htk
  · cases he
    cases hafter.symm.trans hg
    exact hfiles.event_eq

/-- The log has been given the event that a ticker waits for. -/
theorem Timely.tickerFiled (h : v.Timely a interval now loop) (hnow : now ≤ m.wall)
    (hc : v.Coherent w a) {f f' : Filing} {t t' : Ticker} (hticker : v.ticker = some t)
    (hbefore : t.filing? = some f) (hafter : t'.filing? = some f') {events' : List Event}
    {d : Details} (hfiles : f.Files v.events f' events') (hstory : ∃ tl, Story a v.events tl)
    (htells : f.event.Tells a d)
    (hticks : ∀ tl, Story a v.events tl →
      tl.dueAt interval (tl.after f.event d).tickCount.toNat ≤ f.event.timestamp.nanos ∧
        ∀ p, (tl.after f.event d).pausedAt = some p →
          tl.dueAt interval (tl.after f.event d).tickCount.toNat ≤ p.nanos)
    (howed : t'.phase.owed = t.phase.owed) (hwaiting : t'.phase.isWaiting = t.phase.isWaiting)
    (hsteady : t'.phase.isSteadyTick = t.phase.isSteadyTick) :
    (View.mk v.entry (some t') v.errand events').Timely a interval m.wall loop := by
  refine h.filed hnow hfiles hstory htells (.inl ⟨t, hticker, hbefore⟩) hticks ?_ ?_
  · intro tk heq
    cases heq
    exact ⟨t, hticker, howed, hwaiting, hsteady⟩
  · rintro g (⟨tk, htk, hg⟩ | ⟨e, he, hg⟩)
    · cases htk
      cases hafter.symm.trans hg
      exact hfiles.event_eq
    · rw [hc.errand_eq_joining hticker he] at hg
      cases hg

/-- A world that is restored was due at the last event of its history, and at its mark. -/
theorem timely_restored (h : v.Timely a interval now loop) (hnow : now ≤ m.wall) {t : Timeline}
    (hstory : Story a v.events t) (order : SpawnOrder) :
    (View.mk (some t.toWorld) none (some (.spawn order (.readingVersion t.toWorld)))
      v.events).Timely a interval m.wall loop := by
  refine ⟨?_, by rintro t e tk ht he ⟨⟩, h.timeline_mono hnow, ?_⟩
  · intro tl e ht heq
    cases heq
    rw [ht.unique hstory]
    obtain ⟨hlast, hbefore, hmark⟩ := h.timeline_mono hnow t hstory
    refine ⟨Int.le_trans hlast hbefore, ?_⟩
    intro p heq
    cases heq
    cases hpausedAt : t.pausedAt with
    | none => exact hlast
    | some p => exact hmark p hpausedAt
  · rintro f (⟨tk, ⟨⟩, -⟩ | ⟨e, ⟨⟩, ⟨⟩⟩)

/-- A world that is new has made no tick, and its ticker owes none. -/
theorem timely_enrolled (h : v.Timely a interval now loop) (hnow : now ≤ m.wall)
    {order : SpawnOrder} {t : Ticker}
    (hnew : Ticker.new? w.clock a order.dilation 1 Duration.zero none = some t) :
    (View.mk (some (World.starting a order.name order.dilation m.wall)) (some t) none
      v.events).Timely a interval m.wall loop := by
  obtain ⟨delta, -, rfl⟩ := Option.map_eq_some_iff.mp hnew
  have hdue : ∀ tl, Story a v.events tl → tl.dueAt interval 0 ≤ m.wall.nanos := by
    intro tl ht
    obtain ⟨hlast, hbefore, -⟩ := h.timeline_mono hnow tl ht
    calc tl.dueAt interval 0
        ≤ tl.dueAt interval tl.tickCount.toNat := tl.dueAt_mono interval (Nat.zero_le _)
      _ ≤ tl.lastEventAt.nanos := hlast
      _ ≤ m.wall.nanos := hbefore
  refine ⟨?_, ?_, h.timeline_mono hnow, ?_⟩
  · intro tl e ht heq
    cases heq
    exact ⟨hdue tl ht, by rintro p ⟨⟩⟩
  · intro tl e tk ht heq hsame
    cases heq
    cases hsame
    exact ⟨hdue tl ht, by rintro (⟨⟨⟩⟩ | ⟨⟨⟩⟩)⟩
  · rintro f (⟨tk, ⟨⟩, ⟨⟩⟩ | ⟨e, ⟨⟩, -⟩)

/-- The log has been given the first event of a world. -/
theorem timely_founded (hc : v.Coherent w a) (hchron : v.Chronicled a)
    (h : v.Timely a interval now loop) (hnow : now ≤ m.wall) {order : SpawnOrder}
    {filing filing' : Filing} {events' : List Event}
    (herrand : v.errand = some (.spawn order (.creating filing)))
    (hfiles : filing.Files v.events filing' events') :
    (View.mk v.entry none (some (.spawn order (.creating filing'))) events').Timely a interval
      m.wall loop := by
  obtain ⟨-, -, -, hentry, -⟩ := hc.errand _ herrand
  obtain ⟨hstamp, hbefore⟩ := h.filing filing (.inr ⟨_, herrand, rfl⟩)
  have hnew : ∀ t, Story a events' t → Story a v.events t ∨
      t.dueAt interval t.tickCount.toNat = filing.event.timestamp.nanos ∧
        t.lastEventAt = filing.event.timestamp ∧ t.pausedAt = none := by
    intro t ht
    obtain hold | ⟨d, rfl⟩ := hchron.story_of_creation herrand hfiles ht
    · exact .inl hold
    · exact .inr ⟨by simp [Timeline.dueAt, Timeline.starting], rfl, rfl⟩
  refine ⟨by simp [hentry], by rintro t e tk ht he ⟨⟩, fun t ht => ?_, ?_⟩
  · obtain hold | ⟨hdue, hlast, hpausedAt⟩ := hnew t ht
    · exact h.timeline_mono hnow t hold
    · rw [hdue, hlast]
      exact ⟨Int.le_refl _, Int.le_trans hstamp hnow, by simp [hpausedAt]⟩
  · rintro f (⟨tk, ⟨⟩, -⟩ | ⟨e, ⟨⟩, ⟨⟩⟩)
    rw [hfiles.event_eq]
    refine ⟨Int.le_trans hstamp hnow, fun t ht => ⟨?_, by simp [hentry]⟩⟩
    obtain hold | ⟨-, hlast, -⟩ := hnew t ht
    · exact (hbefore t hold).1
    · rw [hlast]
      exact Int.le_refl _

/-- A ticker has gone on with the entry of its world. -/
theorem timely_goneOn (hc : v.Coherent w a) (hatt : v.Attuned a)
    (h : v.Timely a interval now loop) (hnow : now ≤ m.wall) {t t' : Ticker}
    {entry entry' : World} {loop' : Option SteadyLoop} (hticker : v.ticker = some t)
    (hentry : v.entry = some entry) (hgoes : t.Goes w m entry t' entry')
    (htimely : ∀ tl, Story a v.events tl →
      Ticker.Timely tl interval m.wall loop' t'.phase entry') :
    (View.mk (some entry') (some t') v.errand v.events).Timely a interval m.wall loop' := by
  have hdue : ∀ tl e, Story a v.events tl → some entry' = some e →
      tl.dueAt interval e.tickCount.toNat ≤ m.wall.nanos := by
    intro tl e ht heq
    cases heq
    exact Int.le_trans (tl.dueAt_mono interval (Nat.le_add_right _ _)) (htimely tl ht).owed
  refine ⟨fun tl e ht he => ⟨hdue tl e ht he, ?_⟩, ?_, h.timeline_mono hnow, ?_⟩
  · cases he
    simp [hatt.unmarked_of_goes hc hticker hentry hgoes]
  · intro tl e tk ht heq hsame
    cases heq
    cases hsame
    exact htimely tl ht
  · rintro f (⟨tk, htk, hf⟩ | ⟨e, he, hf⟩)
    · cases htk
      obtain ⟨d, -, rfl⟩ := hgoes.filing_eq hf
      exact h.filing_start hnow rfl hdue
    · rw [hc.errand_eq_joining hticker he] at hf
      cases hf

/-- A step of a view keeps to what is due. -/
theorem Step.timely (hinterval : w.clock.tickInterval = interval) (hc : v.Coherent w a)
    (hchron : v.Chronicled a) (hatt : v.Attuned a) (hfol : v.Followed a)
    (h : v.Timely a interval now loop) (hnow : now ≤ m.wall) (hsteps : v.Step w m a v')
    (hpunctual : SteadyLoop.IsInTime interval (v.ticker.map (·.phase)) (v'.ticker.map (·.phase))
      loop m.wall) :
    v'.Timely a interval m.wall
      (SteadyLoop.watch m (v.ticker.map (·.phase)) (v'.ticker.map (·.phase)) loop) := by
  cases hsteps with
  | askKnown hworld herrand hticker hentry haccepted hstatus =>
    simp only [hticker, Option.map_none, SteadyLoop.watch]
    exact h.idle hnow (by simp) (by rintro e ⟨⟩; rfl)
  | askUnknown hworld herrand hticker hentry haccepted =>
    simp only [hticker, Option.map_none, SteadyLoop.watch]
    exact h.idle hnow (by simp) (by rintro e ⟨⟩; rfl)
  | @create order herrand hhistory =>
    obtain ⟨-, -, hticker, hentry⟩ := hc.errand _ herrand
    simp only [hticker, Option.map_none, SteadyLoop.watch]
    refine ⟨h.entry_mono hnow, by rintro t e tk ht he ⟨⟩, h.timeline_mono hnow, ?_⟩
    rintro f (⟨tk, ⟨⟩, -⟩ | ⟨e, he, hf⟩)
    obtain rfl := Option.some.inj he
    obtain rfl := Option.some.inj hf
    exact h.filing_start hnow rfl (by simp [hentry])
  | @restore order t count herrand hworld hhistory =>
    obtain ⟨t', hstory, hsame⟩ := hchron.story_of_restore hhistory
    simp only [hc.ticker_eq_none herrand, Option.map_none, SteadyLoop.watch, ← hsame]
    exact timely_restored h hnow hstory order
  | @announce order known herrand hannounce =>
    have hticker := hc.ticker_eq_none herrand
    simp only [hticker, Option.map_none, SteadyLoop.watch]
    refine ⟨h.entry_mono hnow, by rintro t e tk ht he ⟨⟩, h.timeline_mono hnow, ?_⟩
    rintro f (⟨tk, ⟨⟩, -⟩ | ⟨e, he, hf⟩)
    obtain rfl := Option.some.inj he
    obtain rfl := Option.some.inj hf
    exact h.filing_start hnow rfl fun t e ht he => (h.entry_mono hnow t e ht he).1
  | @takeUp order known entry t herrand hannounce hentry hnew =>
    have hknown := hatt.known order known herrand
    obtain rfl := Option.some.inj (hknown.symm.trans hentry)
    simp only [hc.ticker_eq_none herrand, Option.map_none, SteadyLoop.watch]
    exact timely_takenUp hinterval h hnow hentry hnew
  | @takeUpAnnounced order known entry filing t herrand hfiled hentry hnew =>
    obtain ⟨hknown, -⟩ := hatt.announcing order known filing herrand
    obtain rfl := Option.some.inj (hknown.symm.trans hentry)
    simp only [hc.ticker_eq_none herrand, Option.map_none, SteadyLoop.watch]
    exact timely_takenUp hinterval h hnow hentry hnew
  | @enroll order filing t herrand hfiled hnew =>
    simp only [hc.ticker_eq_none herrand, Option.map_none, SteadyLoop.watch]
    exact timely_enrolled h hnow hnew
  | fileCreation herrand hfiles =>
    simp only [hc.ticker_eq_none herrand, Option.map_none, SteadyLoop.watch]
    exact timely_founded hc hchron h hnow herrand hfiles
  | @fileAnnouncement order known filing filing' events' herrand hfiles =>
    obtain ⟨hentry, hstory, d, htells⟩ := hatt.announcing_tells hchron herrand
    simp only [hc.ticker_eq_none herrand, Option.map_none, SteadyLoop.watch]
    refine h.errandFiled hnow herrand rfl rfl hfiles hstory htells fun t ht => ?_
    obtain ⟨hlast, -, hmark⟩ := h.timeline t ht
    have hbefore := (h.filing filing (.inr ⟨_, herrand, rfl⟩)).2 t ht
    exact ⟨Int.le_trans hlast hbefore.1, hmark⟩
  | @filePause world pending filing filing' events' herrand hfiles =>
    obtain ⟨-, -, hticker, -⟩ := hc.errand _ herrand
    obtain ⟨hentry, hstory, pausedAt, hpausedAt, htells⟩ := hatt.pause_tells hchron herrand
    simp only [hticker, Option.map_none, SteadyLoop.watch]
    refine h.errandFiled hnow herrand rfl rfl hfiles hstory htells fun t ht => ?_
    have hcount : (t.after filing.event (.paused ⟨world.tickCount, world.gameTime.toNanoCount,
        some pausedAt, world.weatherSyncedAt.toNanoCount⟩)).tickCount = world.tickCount :=
      if_pos (hfol.trails t world ht hentry).tickCount
    have hbefore := (h.filing filing (.inr ⟨_, herrand, rfl⟩)).2 t ht
    rw [hcount]
    refine ⟨hbefore.2 world hentry, ?_⟩
    intro p heq
    cases heq
    exact (h.entry t world ht hentry).2 pausedAt hpausedAt
  | @giveUp errand herrand hjoining =>
    have hwatch : SteadyLoop.watch m (v.ticker.map (·.phase)) (v.ticker.map (·.phase)) loop =
        loop := SteadyLoop.watch_self m _ loop
    rw [hwatch]
    exact h.idle hnow (fun tk htk => ⟨tk, htk, rfl⟩) (by rintro e ⟨⟩)
  | @askStop t herrand hticker hstop =>
    simp only [hticker, Option.map_some]
    rw [show t.requestStop.phase = t.phase from rfl, SteadyLoop.watch, SteadyLoop.next_self]
    refine h.idle hnow ?_ (by rintro e ⟨⟩; rfl)
    intro tk heq
    cases heq
    exact ⟨t, hticker, rfl⟩
  | @pause t pending entry herrand hticker hphase hentry =>
    simp only [hticker, Option.map_some]
    refine timely_paused hinterval h hnow hentry fun tl ht => ?_
    have howed := (h.ticker tl entry t ht hentry hticker).owed
    rwa [hphase] at howed
  | breakDown herrand hticker hphase =>
    simp only [hticker, Option.map_some]
    exact h.idle hnow (by rintro tk ⟨⟩) (by rintro e ⟨⟩; rfl)
  | @pauseBroken entry herrand hentry =>
    obtain ⟨-, -, hticker⟩ := hc.errand _ herrand
    simp only [hticker, Option.map_none]
    exact timely_paused hinterval h hnow hentry fun tl ht => (h.entry tl entry ht hentry).1
  | @goes t t' entry entry' hticker hentry hgoes =>
    simp only [hticker, Option.map_some] at hpunctual ⊢
    exact timely_goneOn hc hatt h hnow hticker hentry hgoes fun tl ht =>
      hgoes.timely (h.ticker tl entry t ht hentry hticker) hnow hpunctual
  | @fileTick t cause gameTime filing filing' events' hticker hphase hfiles =>
    obtain ⟨entry, hentry, hstory, htells⟩ := hatt.tick_tells hchron hc hticker hphase
    have hfiling : t.filing? = some filing := by rw [Ticker.filing?, hphase]
    simp only [hticker, Option.map_some, hphase]
    rw [SteadyLoop.watch, SteadyLoop.next_eq (by rfl) (by rfl)]
    refine h.tickerFiled hnow hc hticker hfiling rfl hfiles hstory htells (fun tl ht => ?_)
      (by rw [hphase]; rfl) (by rw [hphase]; rfl) (by rw [hphase]; rfl)
    have hcount : (tl.after filing.event (t.tickDetails cause entry)).tickCount =
        entry.tickCount := if_pos (hfol.trails tl entry ht hentry).tickCount
    have hbefore := (h.filing filing (.inl ⟨t, hticker, hfiling⟩)).2 tl ht
    rw [hcount]
    exact ⟨hbefore.2 entry hentry, by rintro p ⟨⟩⟩
  | @fileResumption t run filing filing' events' hticker hphase hfiles =>
    obtain ⟨entry, hentry, hstory, htells⟩ := hatt.resumption_tells hchron hc hticker hphase
    have hfiling : t.filing? = some filing := by rw [Ticker.filing?, hphase]
    simp only [hticker, Option.map_some, hphase]
    rw [SteadyLoop.watch, SteadyLoop.next_eq (by rfl) (by rfl)]
    refine h.tickerFiled hnow hc hticker hfiling rfl hfiles hstory htells (fun tl ht => ?_)
      (by rw [hphase]; rfl) (by rw [hphase]; rfl) (by rw [hphase]; rfl)
    obtain ⟨hlast, -, -⟩ := h.timeline tl ht
    have hbefore := (h.filing filing (.inl ⟨t, hticker, hfiling⟩)).2 tl ht
    exact ⟨Int.le_trans hlast hbefore.1, by rintro p ⟨⟩⟩

theorem timely_afterDeath (h : v.Timely a interval now loop) :
    v.afterDeath.Timely a interval now loop :=
  ⟨by rintro t e ht ⟨⟩, by rintro t e tk ht ⟨⟩, h.timeline,
    by rintro f (⟨tk, ⟨⟩, -⟩ | ⟨e, ⟨⟩, -⟩)⟩

end View

/-- Whether a process that takes over has a given tick interval. -/
def Incident.HasInterval (interval : Duration) : Incident → Prop
  | .move _ _ => True
  | .death wiring _ => wiring.clock.tickInterval = interval

namespace Manager

/-- What is kept of a world while time goes on. -/
structure Keeps (a : WorldId) (interval : Duration) (now : Instant) (loop : Option SteadyLoop)
    (p : Manager) : Prop where
  coherent : p.Coherent
  usable : p.wiring.IsUsable
  tickInterval : p.wiring.clock.tickInterval = interval
  chronicled : (p.viewOf a).Chronicled a
  attuned : (p.viewOf a).Attuned a
  followed : (p.viewOf a).Followed a
  timely : (p.viewOf a).Timely a interval now loop

variable {a : WorldId} {interval : Duration} {now : Instant} {loop : Option SteadyLoop}
  {p : Manager}

theorem Keeps.move (h : p.Keeps a interval now loop) {m : Moment} {move : Move}
    (hown : move.isOwn = true) (hnow : now ≤ m.wall)
    (hpunctual : SteadyLoop.IsInTime interval (p.phase? a) ((p.apply m move).phase? a) loop
      m.wall) :
    (p.apply m move).Keeps a interval m.wall (p.watch a loop (.move m move)) := by
  have hwiring := apply_wiring h.coherent m move
  have hcoherent := h.coherent.apply m move
  have hwatch : p.watch a loop (.move m move) =
      SteadyLoop.watch m ((p.viewOf a).ticker.map (·.phase))
        (((p.apply m move).viewOf a).ticker.map (·.phase)) loop := rfl
  obtain heq | hsteps := apply_step h.coherent m hown a
  · rw [hwatch, heq, SteadyLoop.watch_self]
    exact ⟨hcoherent, hwiring ▸ h.usable, by rw [hwiring, h.tickInterval], heq ▸ h.chronicled,
      heq ▸ h.attuned, heq ▸ h.followed, heq ▸ h.timely.mono hnow⟩
  · have hc := h.coherent a
    rw [hwatch]
    exact ⟨hcoherent, hwiring ▸ h.usable, by rw [hwiring, h.tickInterval],
      hsteps.chronicled hc h.chronicled, hsteps.attuned hc h.attuned,
      hsteps.followed hc h.chronicled h.attuned h.followed,
      View.Step.timely h.tickInterval hc h.chronicled h.attuned h.followed h.timely hnow hsteps
        hpunctual⟩

theorem Keeps.death (h : p.Keeps a interval now loop) {wiring : Wiring} (hw : wiring.IsUsable)
    (hinterval : wiring.clock.tickInterval = interval)
    (projections : Option (Dispatcher ReadModel)) :
    (p.meet (.death wiring projections)).Keeps a interval now loop :=
  ⟨coherent_start wiring _ projections, hw, hinterval, View.chronicled_afterDeath h.chronicled,
    View.attuned_afterDeath (p.viewOf a), View.followed_afterDeath h.followed,
    View.timely_afterDeath h.timely⟩

theorem Keeps.mono (h : p.Keeps a interval now loop) {now' : Instant} (hnow : now ≤ now') :
    p.Keeps a interval now' loop :=
  { h with timely := h.timely.mono hnow }

theorem Keeps.live (h : p.Keeps a interval now loop) {course : List Incident}
    (hown : ∀ i ∈ course, i.IsOwn) (hinterval : ∀ i ∈ course, i.HasInterval interval)
    (hclock : InOrder course) (hstart : ∀ t ∈ walls course, now ≤ t)
    (hpunctual : IsPunctual a interval p loop course) {now' : Instant} (hnow : now ≤ now')
    (hend : ∀ t ∈ walls course, t ≤ now') :
    ∃ loop', (p.live course).Keeps a interval now' loop' := by
  induction course generalizing p now loop with
  | nil => exact ⟨loop, h.mono hnow⟩
  | cons i course ih =>
    obtain ⟨hfirst, hrest⟩ := hpunctual
    have hi := hown i (by simp)
    have hown' : ∀ j ∈ course, j.IsOwn := fun j hj => hown j (by simp [hj])
    have hinterval' : ∀ j ∈ course, j.HasInterval interval := fun j hj => hinterval j (by simp [hj])
    cases i with
    | move m move =>
      have hwalls : walls (.move m move :: course) = m.wall :: walls course := rfl
      rw [hwalls, List.forall_mem_cons] at hstart hend
      rw [InOrder, hwalls, List.pairwise_cons] at hclock
      have hkeeps := h.move hi hstart.1 (hfirst m.wall rfl)
      exact ih hkeeps hown' hinterval' hclock.2 hclock.1 hrest hend.1 hend.2
    | death wiring projections =>
      have hkeeps := h.death hi (hinterval (.death wiring projections) (by simp)) projections
      exact ih hkeeps hown' hinterval' hclock hstart hrest hnow hend

theorem keeps_start {w : Wiring} (hw : w.IsUsable) (projections : Option (Dispatcher ReadModel))
    (a : WorldId) :
    (start w .empty projections).Keeps a w.clock.tickInterval .earliest none :=
  ⟨coherent_start w .empty projections, hw, rfl, View.chronicled_nil a,
    View.attuned_afterDeath ⟨none, none, none, []⟩,
    ⟨by rintro t entry ht ⟨⟩, by rintro t ht; exact absurd rfl ht.ne_nil, by rintro entry ⟨⟩,
      by rintro filing world pending ⟨⟩⟩,
    ⟨by rintro t e ht ⟨⟩, by rintro t e tk ht ⟨⟩, by rintro t ht; exact absurd rfl ht.ne_nil,
      by rintro f (⟨tk, ⟨⟩, -⟩ | ⟨e, ⟨⟩, -⟩)⟩⟩

/-- However a line of processes over an empty log has run its worlds, stopped and resumed them, lost
their appends, died and restored them: a world has never made more ticks than there were tick
intervals since its creation. The wall clock must not go back, and no steady tick of the world may
come early. -/
theorem ticks_le_elapsed {w : Wiring} (hw : w.IsUsable)
    (projections : Option (Dispatcher ReadModel)) {course : List Incident}
    (hown : ∀ i ∈ course, i.IsOwn)
    (hinterval : ∀ i ∈ course, i.HasInterval w.clock.tickInterval) (hclock : InOrder course)
    {a : WorldId}
    (hpunctual : IsPunctual a w.clock.tickInterval (start w .empty projections) none course)
    {now : Instant} (hnow : ∀ t ∈ walls course, t ≤ now) {entry : World}
    (hentry : ((start w .empty projections).live course).surroundings.registry.get? a =
      some entry) :
    ∃ first,
      ((((start w .empty projections).live course).surroundings.log.byAggregate a.text 1).head? =
        some first) ∧ first.kind? = some .created ∧
      (entry.tickCount.toNat * w.clock.tickInterval.nanos : Nat) ≤
        now.nanos - first.timestamp.nanos := by
  obtain ⟨loop, hkeeps⟩ := (keeps_start hw projections a).live hown hinterval hclock
    (fun t _ => t.min_le) hpunctual now.min_le hnow
  obtain ⟨t, hstory⟩ := hkeeps.chronicled.story
    (hkeeps.chronicled.entry (Option.ne_none_iff_exists'.mpr ⟨entry, hentry⟩))
  obtain ⟨first, hhead, hkind, hcreated⟩ := hstory.exists_first
  refine ⟨first, ?_, hkind, ?_⟩
  · rw [EventLog.byAggregate_eq hkeeps.chronicled.ascends]
    exact hhead
  · have hdue := (hkeeps.timely.entry t entry hstory hentry).1
    simp only [Timeline.dueAt, hcreated] at hdue
    omega

/-- A world whose catch-up has been interrupted, half a second after it was created. -/
theorem ticks_le_elapsed_of_interruptedOnce :
    ∃ entry first,
      (((start .standard .empty none).live (interruptedOnce ⟨⟨0⟩⟩)).surroundings.registry.get?
        ⟨⟨0⟩⟩ = some entry) ∧
      ((((start .standard .empty none).live (interruptedOnce ⟨⟨0⟩⟩)).surroundings.log.byAggregate
        (WorldId.text ⟨⟨0⟩⟩) 1).head? = some first) ∧ first.kind? = some .created ∧
      (entry.tickCount.toNat * Wiring.standard.clock.tickInterval.nanos : Nat) ≤
        (momentAt 500).wall.nanos - first.timestamp.nanos := by
  have hsome : (((start .standard .empty none).live
      (interruptedOnce ⟨⟨0⟩⟩)).surroundings.registry.get? ⟨⟨0⟩⟩).isSome = true := by
    decide +kernel
  obtain ⟨entry, hentry⟩ := Option.isSome_iff_exists.mp hsome
  have hinterval : ∀ i ∈ interruptedOnce ⟨⟨0⟩⟩,
      i.HasInterval Wiring.standard.clock.tickInterval := by
    simp [interruptedOnce, pausedOnce, resumedOnce, Incident.HasInterval]
  have hclock : InOrder (interruptedOnce ⟨⟨0⟩⟩) := by decide +kernel
  have hpunctual : IsPunctual ⟨⟨0⟩⟩ Wiring.standard.clock.tickInterval
      (start .standard .empty none) none (interruptedOnce ⟨⟨0⟩⟩) := by decide +kernel
  have hnow : ∀ t ∈ walls (interruptedOnce ⟨⟨0⟩⟩), t ≤ (momentAt 500).wall := by decide +kernel
  obtain ⟨first, hfirst⟩ := ticks_le_elapsed Wiring.isUsable_standard none
    (isOwn_interruptedOnce ⟨⟨0⟩⟩) hinterval hclock hpunctual hnow hentry
  exact ⟨entry, first, hentry, hfirst⟩

end Manager

end WorldClock
