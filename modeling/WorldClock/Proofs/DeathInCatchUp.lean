import WorldClock.Proofs.CatchUp
import WorldClock.Proofs.Manager.SoleWriter

/-!
# A death in a catch-up

The mark of a pause stays in the history of a world until a tick or a completed catch-up is stored.
A process that dies before that leaves all that was missed to the next one. Once a tick of
the catch-up is stored the mark is gone, and the world is restored as of its last event: what was
still to be made up for is made up for only if as much time has passed since
(`Manager.restored_plan_iff`).
-/

namespace WorldClock

def TickCause.planned : TickCause → Nat
  | .owed run => run.plan.units.toNat
  | .due _ => 0

def TickCause.done : TickCause → Nat
  | .owed run => run.applied.toNat
  | .due _ => 0

/-- Ticks that a catch-up has planned. One that was stopped only knows what is left. -/
def Phase.planned : Phase → Nat
  | .starting (some plan) => plan.units.toNat
  | .replaying run | .yielding run | .replayed run => run.plan.units.toNat
  | .publishing cause _ | .recording cause _ _ | .askingWeather cause _ _ => cause.planned
  | .finished pending => pending.toNat
  | _ => 0

/-- Planned ticks that are made and in the log, if it has refused none. -/
def Phase.logged : Phase → Nat
  | .replaying run | .yielding run | .replayed run => run.applied.toNat
  | .publishing cause _ => cause.done
  | .recording cause _ filing =>
    match filing.verdict with
    | some (.ok ()) => cause.done + 1
    | _ => cause.done
  | .askingWeather cause _ _ => cause.done + 1
  | _ => 0

/-- Whether the latest event of a history, creations aside, is a pause. -/
def endsPaused (history : List Event) : Bool :=
  (history.reverse.find? fun e => decide (e.kind? ≠ some .created)).any fun e =>
    decide (e.kind? = some .paused)

theorem isSome_after {t : Timeline} {e : Event} {d : Details} {a : WorldId} (h : e.Tells a d)
    (hcreation : d.kind ≠ .created) :
    (t.after e d).pausedAt.isSome = decide (e.kind? = some .paused) := by
  rw [h.kind]
  cases d with
  | created d => exact absurd rfl hcreation
  | ticked d | paused d | resumed d => rfl

namespace Story

variable {a : WorldId} {events : List Event} {t : Timeline}

theorem endsPaused_eq (h : Story a events t) : endsPaused events.reverse = t.pausedAt.isSome := by
  unfold endsPaused
  rw [List.reverse_reverse]
  induction h with
  | @creation e d htells =>
    rw [List.find?_cons_of_neg (by simp [htells.kind, Details.kind])]
    rfl
  | @next e events t d hstory htells ih =>
    by_cases hcreation : d.kind = .created
    · rw [List.find?_cons_of_neg (by simp [htells.kind, hcreation]), ih]
      cases d with
      | created d => rfl
      | ticked d | paused d | resumed d => cases hcreation
    · rw [List.find?_cons_of_pos (by simp [htells.kind, hcreation]), isSome_after htells hcreation]
      rfl

theorem exists_last (h : Story a events t) :
    ∃ last, events.reverse.getLast? = some last ∧ t.lastEventAt = last.timestamp := by
  rw [List.getLast?_reverse]
  cases h with
  | creation => exact ⟨_, rfl, rfl⟩
  | @next e events t d =>
    refine ⟨e, rfl, ?_⟩
    cases d <;> rfl

end Story

theorem TickCause.planned_restAfter (w : Wiring) (cause : TickCause) :
    (Ticker.restAfter w cause).planned = cause.planned :=
  Ticker.restAfter_cases w cause (fun _ => rfl) (fun _ => rfl) fun _ => rfl

theorem Ticker.Goes.planned_le {w : Wiring} {m : Moment} {t t' : Ticker} {entry entry' : World}
    (h : t.Goes w m entry t' entry') : t'.phase.planned ≤ t.phase.planned := by
  have hbegins : ∀ cause, t.Begins w m cause → cause.planned ≤ t.phase.planned := by
    intro cause hbegins
    cases hbegins with
    | owed hphase | due hphase =>
      rw [hphase]
      exact Nat.le_refl _
  cases h with
  | tick hcause | tickUnpublished hcause => exact hbegins _ hcause
  | begin | complete | resumed | halt | crash => exact Nat.zero_le _
  | beginReplay hphase | published hphase | asked hphase | goOn hphase | endReplay hphase =>
    rw [hphase]
    exact Nat.le_refl _
  | @recorded cause gameTime filing r r' hphase | @weathered cause synthetic season hphase =>
    rw [hphase]
    exact Nat.le_of_eq (cause.planned_restAfter w)
  | @interrupt run hphase =>
    rw [hphase]
    change (Count.sub run.plan.units run.applied).toNat ≤ run.plan.units.toNat
    rw [Count.toNat_sub]
    exact Nat.sub_le _ _

/-! ### Marks in the history -/

namespace View

/-- A mark that lies far enough back for all that is planned, and not behind that of the entry. -/
structure Covers (v : View) (interval : Duration) (now mark : Instant) : Prop where
  le_now : mark ≤ now
  ticker : ∀ t, v.ticker = some t →
    mark.nanos + (t.phase.planned * interval.nanos : Nat) ≤ now.nanos
  entry : ∀ entry pausedAt, v.entry = some entry → entry.pausedAt = some pausedAt →
    mark ≤ pausedAt

/-- The mark that the history of a world has, if it has one, covers what is planned. -/
structure Covered (a : WorldId) (interval : Duration) (now : Instant) (v : View) : Prop where
  story : ∀ t mark, Story a v.events t → t.pausedAt = some mark → v.Covers interval now mark
  recording : ∀ filing world pending pausedAt,
    v.errand = some (.stop a (.recording filing world pending)) →
    world.pausedAt = some pausedAt → pausedAt ≤ now

variable {w : Wiring} {m : Moment} {a : WorldId} {v v' : View} {interval : Duration}
  {now now' mark : Instant}

theorem Covers.mono (h : v.Covers interval now mark) (hnow : now ≤ now')
    (hticker : ∀ t', v'.ticker = some t' → t'.phase.planned = 0 ∨
      ∃ t, v.ticker = some t ∧ t'.phase.planned ≤ t.phase.planned)
    (hentry : ∀ entry pausedAt, v'.entry = some entry → entry.pausedAt = some pausedAt →
      v.entry = some entry) :
    v'.Covers interval now' mark where
  le_now := Int.le_trans h.le_now hnow
  ticker t' ht' := by
    have hle : now.nanos ≤ now'.nanos := hnow
    obtain hzero | ⟨t, ht, hplanned⟩ := hticker t' ht'
    · have hmark : mark.nanos ≤ now.nanos := h.le_now
      rw [hzero, Nat.zero_mul]
      omega
    · have hmark := h.ticker t ht
      have hmul := Nat.mul_le_mul_right interval.nanos hplanned
      omega
  entry entry pausedAt he hp := h.entry entry pausedAt (hentry entry pausedAt he hp) hp

theorem Covered.mono (h : v.Covered a interval now) (hnow : now ≤ now') :
    v.Covered a interval now' where
  story t mark ht hmark := by
    refine (h.story t mark ht hmark).mono hnow ?_ ?_
    · intro tk htk
      exact .inr ⟨tk, htk, Nat.le_refl _⟩
    · intro entry pausedAt he _
      exact he
  recording filing world pending pausedAt he hp :=
    Int.le_trans (h.recording filing world pending pausedAt he hp) hnow

/-- A step that leaves the history as it is. -/
theorem Covered.same (h : v.Covered a interval now) (hnow : now ≤ m.wall)
    {entry : Option World} {ticker : Option Ticker} {errand : Option Errand}
    (hticker : ∀ t', ticker = some t' → t'.phase.planned = 0 ∨
      ∃ t, v.ticker = some t ∧ t'.phase.planned ≤ t.phase.planned)
    (hentry : ∀ e pausedAt, entry = some e → e.pausedAt = some pausedAt → v.entry = some e)
    (herrand : ∀ filing world pending,
      errand ≠ some (.stop a (.recording filing world pending))) :
    (View.mk entry ticker errand v.events).Covered a interval m.wall where
  story t mark ht hmark := (h.story t mark ht hmark).mono hnow hticker hentry
  recording filing world pending _ he := absurd he (herrand filing world pending)

/-- A step that adds to the history, if the log takes it. -/
theorem Covered.filed (h : v.Covered a interval now) (hnow : now ≤ m.wall) {f f' : Filing}
    {events' : List Event} {d : Details} (hfiles : f.Files v.events f' events')
    (hstory : ∃ t, Story a v.events t) (htells : f.event.Tells a d)
    {ticker : Option Ticker} {errand : Option Errand}
    (hticker : ∀ t', ticker = some t' → ∃ t, v.ticker = some t ∧
      t'.phase.planned ≤ t.phase.planned)
    (hafter : ∀ t mark, Story a v.events t → (t.after f.event d).pausedAt = some mark →
      v.Covers interval now mark)
    (herrand : ∀ filing world pending pausedAt,
      errand = some (.stop a (.recording filing world pending)) →
      world.pausedAt = some pausedAt → pausedAt ≤ now) :
    (View.mk v.entry ticker errand events').Covered a interval m.wall := by
  have hcovers : ∀ mark, v.Covers interval now mark →
      (View.mk v.entry ticker errand events').Covers interval m.wall mark := by
    intro mark hmark
    exact hmark.mono hnow (fun t' ht' => .inr (hticker t' ht')) fun _ _ he _ => he
  refine ⟨fun t' mark ht' hmark => hcovers mark ?_, fun filing world pending pausedAt he hp =>
    Int.le_trans (herrand filing world pending pausedAt he hp) hnow⟩
  obtain ⟨hold, -⟩ | ⟨hold, -⟩ | ⟨t, hold, rfl⟩ := hfiles.story_cases hstory htells ht'
  · exact h.story t' mark hold hmark
  · exact h.story t' mark hold hmark
  · exact hafter t mark hold hmark

theorem covered_paused (h : v.Covered a w.clock.tickInterval now) (hnow : now ≤ m.wall)
    {entry : World} {version pending : Count}
    (hpending : pending.toNat = 0 ∨ ∃ t, v.ticker = some t ∧ pending.toNat ≤ t.phase.planned) :
    (v.paused w m a entry version pending).Covered a w.clock.tickInterval m.wall := by
  have hle : now.nanos ≤ m.wall.nanos := hnow
  refine ⟨fun t mark ht hmark => ?_, ?_⟩
  · have hcovers := h.story t mark ht hmark
    refine ⟨Int.le_trans hcovers.le_now hnow, ?_, ?_⟩
    · intro tk htk
      cases htk
    intro e pausedAt he hp
    cases he
    cases hp
    refine Instant.le_backDated mark.min_le ?_
    obtain hzero | ⟨tk, htk, hplanned⟩ := hpending
    · have hmarkNow : mark.nanos ≤ now.nanos := hcovers.le_now
      rw [hzero, Nat.zero_mul]
      omega
    · have hmarkNow := hcovers.ticker tk htk
      have hmul := Nat.mul_le_mul_right w.clock.tickInterval.nanos hplanned
      omega
  · intro filing world pending' pausedAt he hp
    cases he
    cases hp
    exact Instant.backDated_le _ _ _

theorem covered_takenUp (h : v.Covered a w.clock.tickInterval now) (hnow : now ≤ m.wall)
    {order : SpawnOrder} {known : World} (hentry : v.entry = some known) {version : Count}
    {weatherSyncedAt : Duration} {t : Ticker}
    (hnew : Ticker.new? w.clock a order.dilation version weatherSyncedAt
      (known.planAt w.clock.tickInterval m.wall) = some t) :
    (v.takenUp w m order known known t).Covered a w.clock.tickInterval m.wall := by
  have hle : now.nanos ≤ m.wall.nanos := hnow
  obtain ⟨delta, -, rfl⟩ := Option.map_eq_some_iff.mp hnew
  refine ⟨fun tl mark ht hmark => ?_, fun filing world pending pausedAt he => by cases he⟩
  have hcovers := h.story tl mark ht hmark
  have hmarkNow : mark.nanos ≤ now.nanos := hcovers.le_now
  refine ⟨Int.le_trans hcovers.le_now hnow, fun tk htk => ?_, fun e pausedAt he hp => ?_⟩
  · cases htk
    cases hplan : known.planAt w.clock.tickInterval m.wall with
    | none =>
      change mark.nanos + (0 * w.clock.tickInterval.nanos : Nat) ≤ m.wall.nanos
      omega
    | some plan =>
      rw [World.planAt] at hplan
      split at hplan
      · next pausedAt _ hpausedAt =>
        cases hplan
        have hmarkPaused : mark.nanos ≤ pausedAt.nanos :=
          hcovers.entry known pausedAt hentry hpausedAt
        have hunits := CatchUpPlan.units_mul_le pausedAt m.wall w.clock.tickInterval
        change mark.nanos + ((CatchUpPlan.between pausedAt m.wall
          w.clock.tickInterval).units.toNat * w.clock.tickInterval.nanos : Nat) ≤ m.wall.nanos
        omega
      · cases hplan
  · cases he
    cases hp

theorem covered_restored (h : v.Covered a interval now) (hnow : now ≤ m.wall) {t : Timeline}
    (hstory : Story a v.events t) (order : SpawnOrder) :
    (View.mk (some t.toWorld) none (some (.spawn order (.readingVersion t.toWorld)))
      v.events).Covered a interval m.wall := by
  refine ⟨fun t' mark ht' hmark => ?_, fun filing world pending pausedAt he => by cases he⟩
  refine ⟨Int.le_trans (h.story t' mark ht' hmark).le_now hnow, fun tk htk => ?_,
    fun e pausedAt he hp => ?_⟩
  · cases htk
  · cases he
    cases hp
    rw [← ht'.unique hstory, hmark]
    exact Int.le_refl _

/-- The log has been given a pause: its mark is that of the entry, and no ticker has a plan. -/
theorem Covered.pauseFiled (h : v.Covered a interval now) (hnow : now ≤ m.wall)
    {world : World} {pending : Count} {f f' : Filing} {events' : List Event}
    {pausedAt : Instant} {d : PausedDetails}
    (herrand : v.errand = some (.stop a (.recording f world pending)))
    (hticker : v.ticker = none) (hentry : v.entry = some world)
    (hpausedAt : world.pausedAt = some pausedAt) (hfiles : f.Files v.events f' events')
    (hstory : ∃ t, Story a v.events t) (htells : f.event.Tells a (.paused d))
    (hmark : d.pausedAt = some pausedAt) :
    (View.mk v.entry none (some (.stop a (.recording f' world pending))) events').Covered a
      interval m.wall := by
  have hbefore := h.recording f world pending pausedAt herrand hpausedAt
  refine h.filed hnow hfiles hstory htells (by rintro t' ⟨⟩) ?_ ?_
  · intro t mark ht hafter
    have hafter' : some (d.pausedAt.getD f.event.timestamp) = some mark := hafter
    rw [hmark] at hafter'
    cases hafter'
    refine ⟨hbefore, fun tk htk => ?_, fun e pausedAt' he hp => ?_⟩
    · cases hticker.symm.trans htk
    · obtain rfl := Option.some.inj (hentry.symm.trans he)
      obtain rfl := Option.some.inj (hpausedAt.symm.trans hp)
      exact Int.le_refl _
  · intro f'' world' pending' pausedAt' he hp
    obtain ⟨-, hstage⟩ := Errand.stop.inj (Option.some.inj he)
    obtain ⟨-, rfl, -⟩ := StopStage.recording.inj hstage
    obtain rfl := Option.some.inj (hpausedAt.symm.trans hp)
    exact hbefore

/-- A step keeps the mark in the history of a world behind what is planned. -/
theorem Step.covered (hc : v.Coherent w a) (hchron : v.Chronicled a) (hatt : v.Attuned a)
    (hnow : now ≤ m.wall) (h : v.Covered a w.clock.tickInterval now) (hsteps : v.Step w m a v') :
    v'.Covered a w.clock.tickInterval m.wall := by
  have hticker : ∀ t', v.ticker = some t' → t'.phase.planned = 0 ∨
      ∃ t, v.ticker = some t ∧ t'.phase.planned ≤ t.phase.planned :=
    fun t' ht' => .inr ⟨t', ht', Nat.le_refl _⟩
  have hentry : ∀ e pausedAt, v.entry = some e → e.pausedAt = some pausedAt → v.entry = some e :=
    fun e pausedAt he _ => he
  cases hsteps with
  | askKnown | askUnknown | create | announce | giveUp =>
    refine h.same hnow hticker hentry ?_
    intro filing world pending he
    cases he
  | @askStop t herrand htick hstop =>
    refine h.same hnow ?_ hentry ?_
    · intro t' ht'
      cases ht'
      exact .inr ⟨t, htick, Nat.le_refl _⟩
    · intro filing world pending he
      cases he
  | breakDown =>
    refine h.same hnow ?_ hentry ?_
    · intro t' ht'
      cases ht'
    · intro filing world pending he
      cases he
  | @restore order t count herrand hworld hhistory =>
    obtain ⟨t', hstory, hsame⟩ := hchron.story_of_restore hhistory
    rw [← hsame, hc.ticker_eq_none herrand]
    exact covered_restored h hnow hstory order
  | takeUp herrand hannounce hsome hnew =>
    obtain rfl := Option.some.inj ((hatt.known _ _ herrand).symm.trans hsome)
    exact covered_takenUp h hnow hsome hnew
  | takeUpAnnounced herrand hfiled hsome hnew =>
    obtain rfl := Option.some.inj ((hatt.announcing _ _ _ herrand).1.symm.trans hsome)
    exact covered_takenUp h hnow hsome hnew
  | enroll herrand hfiled hnew =>
    obtain ⟨delta, -, rfl⟩ := Option.map_eq_some_iff.mp hnew
    refine h.same hnow ?_ ?_ ?_
    · intro t' ht'
      cases ht'
      exact .inl rfl
    · intro e pausedAt he hp
      cases he
      cases hp
    · intro filing world pending he
      cases he
  | @fileCreation order filing filing' events' herrand hfiles =>
    refine ⟨fun t mark ht hmark => ?_, fun filing world pending pausedAt he => by cases he⟩
    obtain hold | ⟨d, rfl⟩ := hchron.story_of_creation herrand hfiles ht
    · exact (h.story t mark hold hmark).mono hnow hticker hentry
    · cases hmark
  | fileAnnouncement herrand hfiles =>
    obtain ⟨-, hstory, d, htells⟩ := hatt.announcing_tells hchron herrand
    refine h.filed hnow hfiles hstory htells (fun t' ht' => ⟨t', ht', Nat.le_refl _⟩) ?_ ?_
    · intro t mark ht hmark
      exact h.story t mark ht hmark
    · intro filing world pending pausedAt he
      cases he
  | filePause herrand hfiles =>
    obtain ⟨hsome, hstory, pausedAt, hpausedAt, htells⟩ := hatt.pause_tells hchron herrand
    obtain ⟨-, -, hnone, -⟩ := hc.errand _ herrand
    rw [hnone]
    exact h.pauseFiled hnow herrand hnone hsome hpausedAt hfiles hstory htells rfl
  | @pause t pending entry herrand htick hphase hsome =>
    refine covered_paused h hnow (.inr ⟨t, htick, ?_⟩)
    rw [hphase]
    exact Nat.le_refl _
  | pauseBroken herrand hsome => exact covered_paused h hnow (.inl rfl)
  | @goes t t' entry entry' htick hsome hgoes =>
    have hunmarked := hatt.unmarked_of_goes hc htick hsome hgoes
    refine h.same hnow ?_ ?_ ?_
    · intro t'' ht''
      cases ht''
      exact .inr ⟨t, htick, hgoes.planned_le⟩
    · intro e pausedAt he hp
      cases he
      rw [hunmarked] at hp
      cases hp
    · intro filing world pending he
      cases hc.errand_eq_joining htick he
  | @fileTick t cause gameTime filing filing' events' htick hphase hfiles =>
    obtain ⟨entry, hsome, hstory, htells⟩ := hatt.tick_tells hchron hc htick hphase
    refine h.filed hnow hfiles hstory htells ?_ ?_ ?_
    · intro t' ht'
      cases ht'
      refine ⟨t, htick, ?_⟩
      rw [hphase]
      exact Nat.le_refl _
    · intro tl mark ht hmark
      cases hmark
    · intro f world pending pausedAt he
      cases hc.errand_eq_joining htick he
  | @fileResumption t run filing filing' events' htick hphase hfiles =>
    obtain ⟨entry, hsome, hstory, htells⟩ := hatt.resumption_tells hchron hc htick hphase
    refine h.filed hnow hfiles hstory htells ?_ ?_ ?_
    · intro t' ht'
      cases ht'
      exact ⟨t, htick, Nat.zero_le _⟩
    · intro tl mark ht hmark
      cases hmark
    · intro f world pending pausedAt he
      cases hc.errand_eq_joining htick he

theorem covered_nil (a : WorldId) (interval : Duration) (now : Instant) :
    (View.mk none none none []).Covered a interval now := by
  refine ⟨fun t mark ht => absurd rfl ht.ne_nil, ?_⟩
  intro filing world pending pausedAt he
  cases he

theorem covered_afterDeath (h : v.Covered a interval now) (interval' : Duration) :
    v.afterDeath.Covered a interval' now := by
  refine ⟨fun t mark ht hmark => ?_, fun filing world pending pausedAt he => by cases he⟩
  refine ⟨(h.story t mark ht hmark).le_now, ?_, ?_⟩
  · intro tk htk
    cases htk
  · intro e pausedAt he
    cases he

end View

namespace Manager

/-- When a process dies, whatever it and those before it have done over the log: the plan of the
next one, at any later instant, has all the planned ticks that are not in the log if and only if
the history of the world ends with a pause, creations aside, or the time for so many ticks has
passed since the last event. -/
theorem restored_plan_iff {w : Wiring} (hw : w.IsUsable)
    (projections : Option (Dispatcher ReadModel)) {course : List Incident}
    (hown : ∀ i ∈ course, i.IsOwn) (hclock : InOrder course) {a : WorldId} {phase : Phase}
    (hphase : ((start w .empty projections).live course).phase? a = some phase) {now : Instant}
    (hnow : ∀ t ∈ walls course, t ≤ now) :
    let p := (start w .empty projections).live course
    let history := p.surroundings.log.byAggregate a.text 1
    ∃ restored count plan last, restore history a = .ok (some (restored, count)) ∧
      restored.planAt p.wiring.clock.tickInterval now = some plan ∧
      history.getLast? = some last ∧
      (phase.planned - phase.logged ≤ plan.units.toNat ↔
        endsPaused history = true ∨
          (phase.planned - phase.logged) * p.wiring.clock.tickInterval.nanos ≤
            (now.nanos - last.timestamp.nanos).toNat) := by
  intro p history
  obtain ⟨hchron, -, hcovered⟩ := live_keeps_in_order
    (fun w now v => v.Covered a w.clock.tickInterval now)
    (fun w v now now' hle h => h.mono hle)
    (fun w m v v' now _ hc hchron hatt hle h hsteps => hsteps.covered hc hchron hatt hle h)
    (fun w w' v now h => View.covered_afterDeath h _) (coherent_start w .empty projections) hw
    (View.chronicled_nil a) (View.attuned_afterDeath ⟨none, none, none, []⟩)
    (View.covered_nil a w.clock.tickInterval .earliest) hown hclock (fun t _ => t.min_le)
    now.min_le hnow
  have hcoherent := (coherent_start w .empty projections).live course a
  have hinterval : nanosPerMilli ≤ p.wiring.clock.tickInterval.nanos :=
    (isUsable_live (coherent_start w .empty projections) hw hown).le_tickInterval
  obtain ⟨t, hticker, rfl⟩ := Option.map_eq_some_iff.mp hphase
  obtain ⟨tl, hstory⟩ := hchron.story (hchron.entry (hcoherent.ticker t hticker).2.1)
  have hhistory : history = (p.viewOf a).events.reverse := byAggregate_live hw projections hown a
  obtain ⟨last, hlast, hstamp⟩ := hstory.exists_last
  rw [hhistory, hstory.endsPaused_eq]
  refine ⟨tl.toWorld, _, _, last, restore_eq hstory, rfl, hlast, ?_⟩
  rw [CatchUpPlan.units_between_of_le _ _ hinterval,
    Nat.le_div_iff_mul_le (Nat.lt_of_lt_of_le (by decide) hinterval)]
  cases hmark : tl.pausedAt with
  | none =>
    -- The mark fell with a tick, so the plan counts from the last event.
    rw [Option.getD_none, hstamp]
    simp
  | some mark =>
    -- No tick of the catch-up is in the log: all that was planned lies between the mark and now.
    have hcovers : mark.nanos + (t.phase.planned * p.wiring.clock.tickInterval.nanos : Nat) ≤
      now.nanos := (hcovered.story tl mark hstory hmark).ticker t hticker
    have hplanned := Nat.mul_le_mul_right p.wiring.clock.tickInterval.nanos
      (Nat.sub_le t.phase.planned t.phase.logged)
    refine iff_of_true ?_ (.inl rfl)
    rw [Option.getD_some]
    omega

/-- Two ticks are planned and one of them is in the log when the process dies. A twentieth of a
second later the other one is lost. -/
theorem restored_plan_iff_of_interruptedOnce :
    ∃ restored count plan,
      restore (((start .standard .empty none).live ((interruptedOnce ⟨⟨0⟩⟩).take
        21)).surroundings.log.byAggregate (WorldId.text ⟨⟨0⟩⟩) 1) ⟨⟨0⟩⟩ =
          .ok (some (restored, count)) ∧
      restored.planAt Wiring.standard.clock.tickInterval (momentAt 400).wall = some plan ∧
      ¬ 2 - 1 ≤ plan.units.toNat := by
  have hphase : (((start .standard .empty none).live ((interruptedOnce ⟨⟨0⟩⟩).take 21)).phase?
      ⟨⟨0⟩⟩).any (fun phase => decide (phase.planned = 2 ∧ phase.logged = 1)) = true := by
    decide +kernel
  obtain ⟨phase, hphase, hcounts⟩ := (Option.any_eq_true _ _).mp hphase
  obtain ⟨hplanned, hlogged⟩ := of_decide_eq_true hcounts
  have hown : ∀ i ∈ (interruptedOnce ⟨⟨0⟩⟩).take 21, i.IsOwn := fun i hi =>
    isOwn_interruptedOnce ⟨⟨0⟩⟩ i (List.mem_of_mem_take hi)
  have hclock : InOrder ((interruptedOnce ⟨⟨0⟩⟩).take 21) := by decide +kernel
  have hnow : ∀ t ∈ walls ((interruptedOnce ⟨⟨0⟩⟩).take 21), t ≤ (momentAt 400).wall := by
    decide +kernel
  obtain ⟨restored, count, plan, last, hrestored, hplan, hlast, hiff⟩ :=
    restored_plan_iff Wiring.isUsable_standard none hown hclock hphase hnow
  have hwiring : ((start .standard .empty none).live ((interruptedOnce ⟨⟨0⟩⟩).take 21)).wiring =
      .standard := by decide +kernel
  have hhistory := byAggregate_live Wiring.isUsable_standard none hown ⟨⟨0⟩⟩
  have hends : endsPaused (((start .standard .empty none).live ((interruptedOnce ⟨⟨0⟩⟩).take
      21)).surroundings.log.byAggregate (WorldId.text ⟨⟨0⟩⟩) 1) = false := by
    rw [hhistory]
    decide +kernel
  have hstamp : (((start .standard .empty none).live ((interruptedOnce ⟨⟨0⟩⟩).take
      21)).surroundings.log.byAggregate (WorldId.text ⟨⟨0⟩⟩) 1).getLast?.map
        (fun e => e.timestamp) = some (momentAt 350).wall := by
    rw [hhistory]
    decide +kernel
  rw [hlast, Option.map_some, Option.some.injEq] at hstamp
  rw [hplanned, hlogged, hends, hwiring, hstamp] at hiff
  rw [hwiring] at hplan
  refine ⟨restored, count, plan, hrestored, hplan, ?_⟩
  rw [hiff]
  decide +kernel

end Manager

end WorldClock
