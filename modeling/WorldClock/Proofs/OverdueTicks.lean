import WorldClock.Proofs.SimulatedTime

/-!
# Overdue ticks

A steady tick that takes longer than the tick interval leaves others overdue. They are made one
after the other once it has ended, unless a stop was asked for meanwhile: a ticker looks at the stop
first. It then ends with ticks overdue that it will not make, and the pause is marked with the
instant of this end, from which no catch-up will make them either. So a stop skips no due tick
exactly if the ticker had come to wait by the time at which its next tick was due
(`Manager.stop_skips_iff`).

The two clocks of a moment are taken to go together, and the timer and the executor to be prompt:
no time passes while a ticker could take a turn or be joined (`Manager.IsPrompt`). What a ticker
waits for in a tick may take any time.
-/

namespace WorldClock

/-! ### Watching a ticker wait -/

/-- The instant, in nanoseconds, at which the next tick of a loop is due. -/
def SteadyLoop.nextDue (l : SteadyLoop) (interval : Duration) : Int :=
  l.startedAt.nanos + ((l.ticks + 1) * interval.nanos : Nat)

/-- The steady loop of a ticker, and when the ticker last came to wait for a tick. -/
structure Rhythm where
  loop : Option SteadyLoop
  restedAt : Instant

def Phase.comesToWait (before after : Phase) : Bool := after.isWaiting && !before.isWaiting

/-- The rhythm of a ticker, which may have started or gone, after a step at some moment. -/
def Rhythm.watch (m : Moment) (before after : Option Phase) (r : Rhythm) : Rhythm where
  loop := SteadyLoop.watch m before after r.loop
  restedAt := match before, after with
    | some before, some after => if before.comesToWait after then m.wall else r.restedAt
    | _, _ => r.restedAt

/-- From which uptime on a ticker can take a turn, or be joined, if it waits for no reply. -/
def Ticker.wakesAt? (t : Ticker) : Option Nat :=
  match t.phase with
  | .waiting due => some (if t.stop.isRaised then 0 else due)
  | .finished _ => some 0
  | _ => none

namespace Manager

/-- What a world's ticker has come to, from a rhythm on, in a run. -/
def rhythm (p : Manager) (a : WorldId) (r : Rhythm) : List (Moment × Move) → Rhythm
  | [] => r
  | (m, move) :: moves =>
    (p.apply m move).rhythm a (Rhythm.watch m (p.phase? a) ((p.apply m move).phase? a) r) moves

def wakesAt? (p : Manager) (a : WorldId) : Option Nat :=
  (p.tickers.get? a).bind Ticker.wakesAt?

/-- In a run time does not go back, and it does not pass while a world's ticker can take a turn. -/
def IsPrompt (a : WorldId) : Manager → Nat → List (Moment × Move) → Prop
  | _, _, [] => True
  | p, now, (m, move) :: moves =>
    (now ≤ m.uptime ∧ ∀ due ∈ p.wakesAt? a, m.uptime ≤ max now due) ∧
      IsPrompt a (p.apply m move) m.uptime moves

/-- A stop is about to join a ticker that has come to its end in a steady loop. -/
def joinsSteady (p : Manager) (a : WorldId) : Bool :=
  match p.errand, p.phase? a with
  | some (.stop world .joining), some (.finished pending) => decide (world = a ∧ pending = 0)
  | _, _ => false

instance decidableIsPrompt (a : WorldId) (p : Manager) (now : Nat)
    (moves : List (Moment × Move)) : Decidable (IsPrompt a p now moves) :=
  match moves with
  | [] => isTrue trivial
  | (m, move) :: moves =>
    have := decidableIsPrompt a (p.apply m move) m.uptime moves
    inferInstanceAs (Decidable (_ ∧ _))

end Manager

/-! ### What is due -/

def TickCause.next? : TickCause → Option Nat
  | .due next => some next
  | .owed _ => none

/-- The uptime at which the next steady tick is due. -/
def Phase.nextDue? : Phase → Option Nat
  | .waiting due => some due
  | .publishing cause _ | .recording cause _ _ | .askingWeather cause _ _ => cause.next?
  | _ => none

/-- Whether a ticker waits for a tick or has stopped doing so. -/
def Phase.isResting : Phase → Bool
  | .waiting _ => true
  | .finished pending => decide (pending = 0)
  | _ => false

theorem Phase.not_rests_of_isSteadyTick {phase : Phase} (h : phase.isSteadyTick = true) :
    phase.isWaiting = false ∧ phase.isResting = false := by
  cases phase <;> first | exact ⟨rfl, rfl⟩ | cases h

/-- What a rhythm tells of a ticker in some phase at some uptime, where wall and uptime are so many
nanoseconds apart: when its next tick is due, and that a ticker that waits has waited no longer than
until then. -/
structure Rhythm.Fits (r : Rhythm) (interval : Duration) (offset : Int) (now : Nat)
    (phase : Phase) : Prop where
  due : ∀ next, phase.nextDue? = some next →
    ∃ l, r.loop = some l ∧ offset + next = l.nextDue interval
  rest : phase.isResting = true → ∃ l, r.loop = some l ∧ r.restedAt.nanos ≤ offset + now ∧
    offset + now ≤ max r.restedAt.nanos (l.nextDue interval)

namespace Rhythm

variable {w : Wiring} {m : Moment} {interval : Duration} {offset : Int} {now : Nat} {r : Rhythm}
  {phase phase' : Phase}

theorem watch_self (m : Moment) (phase : Option Phase) (r : Rhythm) :
    r.watch m phase phase = r := by
  have hloop := SteadyLoop.watch_self m phase r.loop
  cases phase with
  | none => rfl
  | some phase =>
    have hwaits : phase.comesToWait phase = false := Bool.and_not_self _
    simp only [watch, hloop, hwaits, Bool.false_eq_true, if_false]

/-- A ticker that is inside a tick after a step, or outside a steady loop. -/
theorem Fits.busy (h : r.Fits interval offset now phase)
    (hnext : ∀ next, phase'.nextDue? = some next → phase.nextDue? = some next)
    (hresting : phase'.isResting = false) (hwaiting : phase'.isWaiting = false)
    (htick : phase.beginsTick phase' = false) :
    (r.watch m (some phase) (some phase')).Fits interval offset m.uptime phase' where
  due next hdue := by
    obtain ⟨l, hl, heq⟩ := h.due next (hnext next hdue)
    have hbegins : phase.beginsLoop phase' = false := by simp [Phase.beginsLoop, hwaiting]
    exact ⟨l, (SteadyLoop.next_eq hbegins htick).trans hl, heq⟩
  rest hrests := by
    rw [hresting] at hrests
    cases hrests

theorem fits_begin (hpaced : m.wall.nanos = offset + m.uptime)
    (hbegins : phase.beginsLoop (.waiting (m.uptime + interval.nanos)) = true) :
    (r.watch m (some phase) (some (.waiting (m.uptime + interval.nanos)))).Fits interval offset
      m.uptime (.waiting (m.uptime + interval.nanos)) := by
  have hloop : (r.watch m (some phase) (some (.waiting (m.uptime + interval.nanos)))).loop =
      some ⟨m.wall, 0⟩ := if_pos hbegins
  have hwaits : phase.comesToWait (.waiting (m.uptime + interval.nanos)) = true := by
    simp only [Phase.beginsLoop, Bool.and_eq_true] at hbegins
    exact Bool.and_eq_true_iff.mpr hbegins.1
  have hrested : (r.watch m (some phase) (some (.waiting (m.uptime + interval.nanos)))).restedAt =
      m.wall := if_pos hwaits
  have hdue : (⟨m.wall, 0⟩ : SteadyLoop).nextDue interval = m.wall.nanos + interval.nanos := by
    rw [SteadyLoop.nextDue, Nat.zero_add, Nat.one_mul]
  refine ⟨?_, fun _ => ⟨_, hloop, ?_, ?_⟩⟩
  · rintro next ⟨⟩
    refine ⟨_, hloop, ?_⟩
    rw [hdue]
    omega
  · rw [hrested]
    omega
  · rw [hrested]
    omega

/-- A steady tick is over. -/
theorem Fits.endTick (h : r.Fits interval offset now phase)
    (hpaced : m.wall.nanos = offset + m.uptime) (hsteady : phase.isSteadyTick = true)
    {next : Nat} (hnext : phase.nextDue? = some next) :
    (r.watch m (some phase) (some (.waiting next))).Fits interval offset m.uptime
      (.waiting next) := by
  have hwaiting := (Phase.not_rests_of_isSteadyTick hsteady).1
  obtain ⟨l, hl, heq⟩ := h.due next hnext
  have hloop : (r.watch m (some phase) (some (.waiting next))).loop = some l := by
    refine (SteadyLoop.next_eq ?_ ?_).trans hl
    · simp [Phase.beginsLoop, hsteady]
    · simp [Phase.beginsTick, hwaiting]
  have hwaits : phase.comesToWait (.waiting next) = true := by
    rw [Phase.comesToWait, hwaiting]
    rfl
  have hrested : (r.watch m (some phase) (some (.waiting next))).restedAt = m.wall := if_pos hwaits
  refine ⟨?_, fun _ => ⟨l, hloop, ?_, ?_⟩⟩
  · rintro _ ⟨⟩
    exact ⟨l, hloop, heq⟩
  · rw [hrested]
    omega
  · rw [hrested]
    omega

/-- A tick that was due has begun; the next one is due an interval later. -/
theorem Fits.beginTick {due : Nat} (h : r.Fits interval offset now (.waiting due))
    (hsteady : phase'.isSteadyTick = true) (hnext : phase'.nextDue? = some (due + interval.nanos)) :
    (r.watch m (some (.waiting due)) (some phase')).Fits interval offset m.uptime phase' := by
  obtain ⟨hwaiting, hresting⟩ := Phase.not_rests_of_isSteadyTick hsteady
  obtain ⟨l, hl, heq⟩ := h.due due rfl
  have hloop : (r.watch m (some (.waiting due)) (some phase')).loop =
      some { l with ticks := l.ticks + 1 } := by
    have hbegins : Phase.beginsLoop (.waiting due) phase' = false := by
      simp [Phase.beginsLoop, hwaiting]
    have htick : Phase.beginsTick (.waiting due) phase' = true := hsteady
    change SteadyLoop.next m (.waiting due) phase' r.loop = _
    rw [SteadyLoop.next, if_neg (by simp [hbegins]), if_pos htick, hl, Option.map_some]
  refine ⟨fun next hdue => ⟨_, hloop, ?_⟩, fun hrests => ?_⟩
  · obtain rfl := Option.some.inj (hnext.symm.trans hdue)
    simp only [SteadyLoop.nextDue, Nat.add_mul] at heq ⊢
    omega
  · rw [hresting] at hrests
    cases hrests

theorem Fits.halt {due : Nat} (h : r.Fits interval offset now (.waiting due))
    (hnow : m.uptime = now) :
    (r.watch m (some (.waiting due)) (some (.finished 0))).Fits interval offset m.uptime
      (.finished 0) := by
  obtain ⟨l, hl, hrested⟩ := h.rest rfl
  rw [hnow]
  exact ⟨by rintro next ⟨⟩, fun _ => ⟨l, hl, hrested⟩⟩

/-- Time passes, but no more than a ticker that can take a turn lets pass. -/
theorem Fits.wait {t : Ticker} (h : r.Fits interval offset now t.phase) (hnow : now ≤ m.uptime)
    (hprompt : ∀ due ∈ t.wakesAt?, m.uptime ≤ max now due) :
    r.Fits interval offset m.uptime t.phase := by
  refine ⟨h.due, fun hresting => ?_⟩
  obtain ⟨l, hl, hafter, hbefore⟩ := h.rest hresting
  refine ⟨l, hl, by omega, ?_⟩
  rw [Ticker.wakesAt?] at hprompt
  cases hphase : t.phase with
  | waiting due =>
    obtain ⟨l', hl', heq⟩ := h.due due (by rw [hphase]; rfl)
    obtain rfl := Option.some.inj (hl.symm.trans hl')
    have hwakes := hprompt (if t.stop.isRaised then 0 else due) (by rw [hphase]; rfl)
    split at hwakes <;> omega
  | finished pending =>
    have hwakes := hprompt 0 (by rw [hphase]; rfl)
    omega
  | _ =>
    rw [hphase] at hresting
    cases hresting

end Rhythm

namespace Ticker

variable {w : Wiring} {m : Moment} {offset : Int} {now : Nat} {r : Rhythm} {t t' : Ticker}
  {entry entry' : World}

theorem fits_tick {cause : TickCause} {phase' : Phase}
    (h : r.Fits w.clock.tickInterval offset now t.phase) (hbegins : t.Begins w m cause)
    (hsteady : phase'.isSteadyTick = !cause.isCatchUp) (hnext : phase'.nextDue? = cause.next?)
    (hresting : phase'.isResting = false) (hwaiting : phase'.isWaiting = false) :
    (r.watch m (some t.phase) (some phase')).Fits w.clock.tickInterval offset m.uptime phase' := by
  cases hbegins with
  | owed hphase =>
    refine h.busy (fun next hdue => ?_) hresting hwaiting ?_
    · rw [hnext] at hdue
      cases hdue
    · rw [hphase]
      rfl
  | @due due hphase =>
    rw [hphase] at h ⊢
    exact h.beginTick hsteady hnext

theorem fits_endTick {cause : TickCause} {phase : Phase}
    (h : r.Fits w.clock.tickInterval offset now phase) (hpaced : m.wall.nanos = offset + m.uptime)
    (hsteady : phase.isSteadyTick = !cause.isCatchUp) (hnext : phase.nextDue? = cause.next?)
    (hwaiting : phase.isWaiting = false) :
    (r.watch m (some phase) (some (restAfter w cause))).Fits w.clock.tickInterval offset m.uptime
      (restAfter w cause) := by
  have htick (phase' : Phase) : phase.beginsTick phase' = false := by
    simp [Phase.beginsTick, hwaiting]
  cases cause with
  | due next => exact h.endTick hpaced hsteady hnext
  | owed run =>
    rw [restAfter]
    split
    · exact h.busy (by rintro next ⟨⟩) rfl rfl (htick _)
    · exact h.busy (by rintro next ⟨⟩) rfl rfl (htick _)

theorem Goes.fits (hgoes : Goes w m t entry t' entry')
    (h : r.Fits w.clock.tickInterval offset now t.phase)
    (hpaced : m.wall.nanos = offset + m.uptime) (hnow : now ≤ m.uptime)
    (hprompt : ∀ due ∈ t.wakesAt?, m.uptime ≤ max now due) :
    (r.watch m (some t.phase) (some t'.phase)).Fits w.clock.tickInterval offset m.uptime
      t'.phase := by
  cases hgoes with
  | begin hphase | resumed hphase =>
    rw [hphase]
    exact Rhythm.fits_begin hpaced rfl
  | tick hbegins => exact fits_tick h hbegins rfl rfl rfl rfl
  | tickUnpublished hbegins => exact fits_tick h hbegins rfl rfl rfl rfl
  | published hphase | asked hphase =>
    rw [hphase] at h ⊢
    exact h.busy (fun _ hdue => hdue) rfl rfl rfl
  | recorded hphase | weathered hphase =>
    rw [hphase] at h ⊢
    exact fits_endTick h hpaced rfl rfl rfl
  | beginReplay hphase | goOn hphase | endReplay hphase | complete hphase =>
    rw [hphase] at h ⊢
    exact h.busy (by rintro next ⟨⟩) rfl rfl rfl
  | interrupt hphase hpending =>
    rw [hphase] at h ⊢
    exact h.busy (by rintro next ⟨⟩) (decide_eq_false hpending) rfl rfl
  | halt hphase hstop =>
    rw [wakesAt?, hphase, hstop] at hprompt
    have hwakes := hprompt 0 rfl
    rw [hphase] at h ⊢
    exact h.halt (by omega)
  | crash => exact h.busy (by rintro next ⟨⟩) rfl rfl (Bool.and_false _)

end Ticker

/-! ### One move -/

namespace View

variable {w : Wiring} {m : Moment} {a : WorldId} {v v' : View}

/-- What a step does to the ticker of a view: it is gone, or it has just been started, or it stays
in its phase, or its append goes on, or it goes. -/
theorem Step.ticker_cases (h : v.Step w m a v') (hc : v.Coherent w a) :
    v'.ticker = none ∨
      (v.ticker = none ∧ ∃ t plan, v'.ticker = some t ∧ t.phase = .starting plan) ∨
      ∃ t t', v.ticker = some t ∧ v'.ticker = some t' ∧
        (t'.phase = t.phase ∨
          (∃ cause gameTime filing filing', t.phase = .recording cause gameTime filing ∧
            t'.phase = .recording cause gameTime filing') ∨
          (∃ run filing filing', t.phase = .resuming run filing ∧
            t'.phase = .resuming run filing') ∨
          ∃ entry entry', t.Goes w m entry t' entry') := by
  have hstarts {clock : ClockSettings} {dilation : Binary64} {version : Count}
      {weatherSyncedAt : Duration} {plan : Option CatchUpPlan} {t : Ticker}
      (hnew : Ticker.new? clock a dilation version weatherSyncedAt plan = some t) :
      ∃ plan, t.phase = .starting plan := by
    obtain ⟨delta, -, rfl⟩ := Option.map_eq_some_iff.mp hnew
    exact ⟨plan, rfl⟩
  have hsame : v.ticker = none ∨ ∃ t, v.ticker = some t := by
    cases v.ticker with
    | none => exact .inl rfl
    | some t => exact .inr ⟨t, rfl⟩
  cases h with
  | askKnown | askUnknown | create | restore | announce | fileCreation | fileAnnouncement
  | filePause | giveUp =>
    obtain hnone | ⟨t, hticker⟩ := hsame
    · exact .inl hnone
    · exact .inr (.inr ⟨t, t, hticker, hticker, .inl rfl⟩)
  | takeUp herrand _ _ hnew | takeUpAnnounced herrand _ _ hnew | enroll herrand _ hnew =>
    obtain ⟨plan, hphase⟩ := hstarts hnew
    exact .inr (.inl ⟨hc.ticker_eq_none herrand, _, plan, rfl, hphase⟩)
  | askStop _ hticker => exact .inr (.inr ⟨_, _, hticker, rfl, .inl rfl⟩)
  | pause | breakDown | pauseBroken => exact .inl rfl
  | goes hticker _ hgoes =>
    exact .inr (.inr ⟨_, _, hticker, rfl, .inr (.inr (.inr ⟨_, _, hgoes⟩))⟩)
  | fileTick hticker hphase =>
    exact .inr (.inr ⟨_, _, hticker, rfl, .inr (.inl ⟨_, _, _, _, hphase, rfl⟩)⟩)
  | fileResumption hticker hphase =>
    exact .inr (.inr ⟨_, _, hticker, rfl, .inr (.inr (.inl ⟨_, _, _, hphase, rfl⟩))⟩)

/-- What a rhythm tells of the ticker of a view. -/
def Keeps (interval : Duration) (offset : Int) (now : Nat) (r : Rhythm) (v : View) : Prop :=
  ∀ t, v.ticker = some t → r.Fits interval offset now t.phase

variable {offset : Int} {now : Nat} {r : Rhythm}

theorem Keeps.wait {interval : Duration} (h : v.Keeps interval offset now r)
    (hnow : now ≤ m.uptime)
    (hprompt : ∀ t, v.ticker = some t → ∀ due ∈ t.wakesAt?, m.uptime ≤ max now due) :
    v.Keeps interval offset m.uptime r :=
  fun t hticker => (h t hticker).wait hnow (hprompt t hticker)

theorem Step.keeps (hsteps : v.Step w m a v') (hc : v.Coherent w a)
    (h : v.Keeps w.clock.tickInterval offset now r) (hpaced : m.wall.nanos = offset + m.uptime)
    (hnow : now ≤ m.uptime)
    (hprompt : ∀ t, v.ticker = some t → ∀ due ∈ t.wakesAt?, m.uptime ≤ max now due) :
    v'.Keeps w.clock.tickInterval offset m.uptime
      (r.watch m (v.ticker.map (·.phase)) (v'.ticker.map (·.phase))) := by
  intro t'' hticker''
  obtain hnone | ⟨-, t', plan, hticker', hphase⟩ | ⟨t, t', hticker, hticker', hphase⟩ :=
    hsteps.ticker_cases hc
  · rw [hnone] at hticker''
    cases hticker''
  · obtain rfl := Option.some.inj (hticker'.symm.trans hticker'')
    rw [hphase]
    exact ⟨by rintro next ⟨⟩, by rintro ⟨⟩⟩
  · obtain rfl := Option.some.inj (hticker'.symm.trans hticker'')
    have hfits := h t hticker
    rw [hticker, hticker', Option.map_some, Option.map_some]
    obtain hsame | ⟨cause, gameTime, filing, filing', hbefore, hafter⟩ |
      ⟨run, filing, filing', hbefore, hafter⟩ | ⟨entry, entry', hgoes⟩ := hphase
    · rw [hsame, Rhythm.watch_self]
      exact hfits.wait hnow (hprompt t hticker)
    · rw [hbefore] at hfits ⊢
      rw [hafter]
      exact hfits.busy (fun _ hdue => hdue) rfl rfl rfl
    · rw [hbefore] at hfits ⊢
      rw [hafter]
      exact hfits.busy (fun _ hdue => hdue) rfl rfl rfl
    · exact hgoes.fits hfits hpaced hnow (hprompt t hticker)

end View

/-! ### A run -/

theorem Instant.backDated_zero (now : Instant) (interval : Duration) :
    now.backDated interval 0 = now := by
  have hmin := now.min_le
  have hnanos : (now.backDated interval 0).nanos =
      now.nanos - interval.nanos * (0 : Count).toNat :=
    Instant.nanos_backDated (by simp) (by simpa using hmin)
  exact Instant.ext (by simpa using hnanos)

namespace Manager

variable {p : Manager} {m : Moment} {a : WorldId} {offset : Int} {now : Nat} {r : Rhythm}

theorem keeps_apply (hp : p.Coherent)
    (h : (p.viewOf a).Keeps p.wiring.clock.tickInterval offset now r)
    (hpaced : m.wall.nanos = offset + m.uptime) (hnow : now ≤ m.uptime)
    (hprompt : ∀ due ∈ p.wakesAt? a, m.uptime ≤ max now due) (move : Move) :
    ((p.apply m move).viewOf a).Keeps p.wiring.clock.tickInterval offset m.uptime
      (r.watch m (p.phase? a) ((p.apply m move).phase? a)) := by
  have hwakes : ∀ t, (p.viewOf a).ticker = some t → ∀ due ∈ t.wakesAt?, m.uptime ≤ max now due := by
    intro t hticker due hdue
    have hget : p.tickers.get? a = some t := hticker
    exact hprompt due (by rw [wakesAt?, hget]; exact hdue)
  have hstays (hticker : ((p.apply m move).viewOf a).ticker = (p.viewOf a).ticker) :
      ((p.apply m move).viewOf a).Keeps p.wiring.clock.tickInterval offset m.uptime
        (r.watch m (p.phase? a) ((p.apply m move).phase? a)) := by
    have hphase : (p.apply m move).phase? a = p.phase? a :=
      congrArg (Option.map Ticker.phase) hticker
    rw [hphase, Rhythm.watch_self]
    intro t ht
    exact h.wait hnow hwakes t (hticker.symm.trans ht)
  obtain heq | hsteps | ⟨change, entry, -, -, -, heq⟩ := apply_cases hp m move a
  · exact hstays (congrArg View.ticker heq)
  · exact hsteps.keeps (hp a) h hpaced hnow hwakes
  · exact hstays (by rw [heq])

theorem keeps_run (hp : p.Coherent)
    (h : (p.viewOf a).Keeps p.wiring.clock.tickInterval offset now r)
    {moves rest : List (Moment × Move)}
    (hpaced : ∀ x ∈ moves, x.1.wall.nanos = offset + x.1.uptime)
    (hprompt : IsPrompt a p now (moves ++ rest)) :
    ∃ now', ((p.run moves).viewOf a).Keeps p.wiring.clock.tickInterval offset now'
        (p.rhythm a r moves) ∧ IsPrompt a (p.run moves) now' rest := by
  induction moves generalizing p now r with
  | nil => exact ⟨now, h, hprompt⟩
  | cons x moves ih =>
    obtain ⟨m, move⟩ := x
    obtain ⟨hfirst, hothers⟩ := List.forall_mem_cons.mp hpaced
    obtain ⟨⟨hnow, hwakes⟩, hlater⟩ := hprompt
    have hkeeps := keeps_apply hp h hfirst hnow hwakes move
    have hwiring := apply_wiring hp m move
    rw [← hwiring] at hkeeps ⊢
    exact ih (hp.apply m move) hkeeps hothers hlater

theorem joinsSteady_iff : p.joinsSteady a = true ↔
    p.errand = some (.stop a .joining) ∧ p.phase? a = some (.finished 0) := by
  constructor
  · intro h
    rw [joinsSteady] at h
    split at h
    · next world pending herrand hphase =>
      obtain ⟨rfl, rfl⟩ := of_decide_eq_true h
      exact ⟨herrand, hphase⟩
    · cases h
  · rintro ⟨herrand, hphase⟩
    simp only [joinsSteady, herrand, hphase, and_self, decide_true]

theorem entry_join (hp : p.Coherent) (herrand : p.errand = some (.stop a .joining))
    (hphase : p.phase? a = some (.finished 0)) :
    ∃ entry, (p.apply m .join).surroundings.registry.get? a = some entry ∧
      entry.status = .paused ∧ entry.pausedAt = some m.wall := by
  obtain ⟨t, hticker, hfinished⟩ := Option.map_eq_some_iff.mp hphase
  obtain ⟨entry, hentry⟩ := Option.ne_none_iff_exists'.mp ((hp a).ticker t hticker).2.1
  have hjoin : p.apply m .join = (p.withoutTicker a).pause m a t.version 0 := by
    rw [apply, herrand]
    simp only [join, hticker, hfinished]
    rfl
  have hview := congrArg View.entry (viewOf_pause_withoutTicker (m := m) hentry t.version 0)
  rw [← hjoin] at hview
  refine ⟨_, hview, rfl, ?_⟩
  exact congrArg some (Instant.backDated_zero m.wall _)

/-- In a run in which the clocks go together and nothing but the calls of a tick takes time, a stop
joins a ticker that has come to its end in a steady loop. The mark of the pause is at most one tick
interval after the last tick that was due and made, exactly if the ticker had come to wait by the
time at which the next one was due. If its last tick took longer, the mark is the instant at which
it was over, and no tick that was due in between is made. -/
theorem stop_skips_iff (w : Wiring) (log : EventLog) (projections : Option (Dispatcher ReadModel))
    {a : WorldId} {offset : Int} {moves : List (Moment × Move)} {m : Moment}
    (hpaced : ∀ x ∈ moves ++ [(m, .join)], x.1.wall.nanos = offset + x.1.uptime)
    (hprompt : IsPrompt a (start w log projections) 0 (moves ++ [(m, .join)]))
    (hjoins : ((start w log projections).run moves).joinsSteady a = true) :
    let interval := w.clock.tickInterval
    let r := (start w log projections).rhythm a ⟨none, .earliest⟩ moves
    ∃ l entry, r.loop = some l ∧
      (((start w log projections).run moves).apply m .join).surroundings.registry.get? a =
        some entry ∧ entry.status = .paused ∧ entry.pausedAt = some m.wall ∧
      (m.wall.nanos - (l.startedAt.nanos + (l.ticks * interval.nanos : Nat)) ≤ interval.nanos ↔
        r.restedAt.nanos ≤ l.startedAt.nanos + ((l.ticks + 1) * interval.nanos : Nat)) ∧
      (l.startedAt.nanos + ((l.ticks + 1) * interval.nanos : Nat) < r.restedAt.nanos →
        m.wall = r.restedAt) := by
  intro interval r
  have hp := coherent_start w log projections
  obtain ⟨herrand, hphase⟩ := joinsSteady_iff.mp hjoins
  obtain ⟨hbefore, hlast⟩ := List.forall_mem_append.mp hpaced
  have hm : m.wall.nanos = offset + m.uptime := hlast (m, .join) (List.mem_singleton_self _)
  have hnone : ((start w log projections).viewOf a).Keeps w.clock.tickInterval offset 0
      ⟨none, .earliest⟩ := by
    rintro t ⟨⟩
  obtain ⟨now, hkeeps, ⟨hnow, hwakes⟩, -⟩ := keeps_run hp hnone hbefore hprompt
  obtain ⟨entry, hentry, hpaused, hmark⟩ := entry_join (m := m) (hp.run moves) herrand hphase
  obtain ⟨t, hticker, hfinished⟩ := Option.map_eq_some_iff.mp hphase
  have hjoined : m.uptime ≤ max now 0 := by
    refine hwakes 0 ?_
    rw [wakesAt?, hticker, Option.bind_some, Ticker.wakesAt?, hfinished]
    rfl
  obtain ⟨l, hloop, hrested, hdue⟩ := (hkeeps t hticker).rest (by rw [hfinished]; rfl)
  refine ⟨l, entry, hloop, hentry, hpaused, hmark, ?_, fun hlate => Instant.ext ?_⟩
  · change r.restedAt.nanos ≤ _ at hrested
    change _ ≤ max r.restedAt.nanos (l.nextDue interval) at hdue
    rw [SteadyLoop.nextDue] at hdue
    simp only [Nat.add_mul] at hdue ⊢
    omega
  · change r.restedAt.nanos ≤ _ at hrested
    change _ ≤ max r.restedAt.nanos (l.nextDue interval) at hdue
    rw [SteadyLoop.nextDue] at hdue
    omega

/-- A world is created. Its first tick is made when it is due, but takes so long to be recorded that
two more are overdue when it is over, and a stop was asked for meanwhile. -/
def overranOnce (world : WorldId) : List (Moment × Move) :=
  [(momentAt 0, .spawn ⟨world, "world", .one⟩), (momentAt 0, .read none), (momentAt 0, .file),
    (momentAt 0, .conclude .answered), (momentAt 0, .poll world), (momentAt 100, .poll world),
    (momentAt 100, .fileFor world), (momentAt 250, .stop world),
    (momentAt 350, .concludeFor world .answered), (momentAt 350, .poll world)]

theorem stop_skips_iff_of_overranOnce :
    ∃ (l : SteadyLoop) (entry : World), l.startedAt = (momentAt 0).wall ∧ l.ticks = 1 ∧
      (((start .standard .empty none).run (overranOnce ⟨⟨0⟩⟩)).apply (momentAt 350)
        .join).surroundings.registry.get? ⟨⟨0⟩⟩ = some entry ∧ entry.status = .paused ∧
      entry.pausedAt = some (momentAt 350).wall ∧
      ¬((momentAt 350).wall.nanos - (l.startedAt.nanos +
        (l.ticks * Wiring.standard.clock.tickInterval.nanos : Nat)) ≤
          Wiring.standard.clock.tickInterval.nanos) := by
  have hpaced : ∀ x ∈ overranOnce ⟨⟨0⟩⟩ ++ [(momentAt 350, .join)],
      x.1.wall.nanos = (0 : Int) + x.1.uptime := by
    decide +kernel
  have hprompt : IsPrompt ⟨⟨0⟩⟩ (start .standard .empty none) 0
      (overranOnce ⟨⟨0⟩⟩ ++ [(momentAt 350, .join)]) := by
    decide +kernel
  have hjoins : ((start .standard .empty none).run (overranOnce ⟨⟨0⟩⟩)).joinsSteady ⟨⟨0⟩⟩ =
      true := by
    decide +kernel
  have hrhythm : ((start .standard .empty none).rhythm ⟨⟨0⟩⟩ ⟨none, .earliest⟩
      (overranOnce ⟨⟨0⟩⟩)).loop.map (fun l => (l.startedAt, l.ticks)) =
        some ((momentAt 0).wall, 1) ∧
      ((start .standard .empty none).rhythm ⟨⟨0⟩⟩ ⟨none, .earliest⟩
        (overranOnce ⟨⟨0⟩⟩)).restedAt = (momentAt 350).wall := by
    decide +kernel
  obtain ⟨l, entry, hloop, hentry, hpaused, hmark, hiff, -⟩ :=
    stop_skips_iff .standard .empty none hpaced hprompt hjoins
  obtain ⟨hl, hrested⟩ := hrhythm
  rw [hloop, Option.map_some, Option.some.injEq, Prod.mk.injEq] at hl
  obtain ⟨hstarted, hticks⟩ := hl
  rw [hrested, hstarted, hticks] at hiff
  refine ⟨l, entry, hstarted, hticks, hentry, hpaused, hmark, ?_⟩
  rw [hstarted, hticks, hiff]
  decide +kernel

end Manager

end WorldClock
