import WorldClock.Proofs.Manager.Services

/-!
# The lifecycle of a world

As long as every append stores its event and no ticker breaks down, the phase of a ticker tells what
its service has written so far (`Phase.Shows`), and between services nothing waits for the log
(`View.Recounts`). So the history of a world follows the grammar of its services, wherever a stop or
a death cuts a service short (`Manager.lifecycle_of_services`).
-/

namespace WorldClock

/-! ### What a ticker has written -/

/-- What the log has of an append. -/
def Filing.marks (f : Filing) (mark : Mark) : List Mark := if f.isStored then [mark] else []

theorem Filing.marks_of_stored {f : Filing} (h : f.isStored = true) (mark : Mark) :
    f.marks mark = [mark] := if_pos h

theorem Filing.marks_of_fresh {f : Filing} (h : f.verdict = none) (mark : Mark) :
    f.marks mark = [] := by
  rw [marks, isStored, h]
  rfl

/-- The log takes an event, or the history stays as it is. -/
theorem Filing.Files.stored_cases {f f' : Filing} {events events' : List Event}
    (h : f.Files events f' events') :
    f'.isStored = f.isStored ∧ events' = events ∨
      f.verdict = none ∧ f'.isStored = true ∧ events' = f.event :: events := by
  cases h with
  | again => exact .inl ⟨rfl, rfl⟩
  | stored hverdict => exact .inr ⟨hverdict, rfl, rfl⟩
  | refused error hverdict =>
    refine .inl ⟨?_, rfl⟩
    rw [isStored, isStored, hverdict]

/-- The marks of a history, and of the append that the log sees, before and after. -/
theorem Filing.Files.marks {f f' : Filing} {events events' : List Event} {mark : Mark}
    {marks : List Mark} (h : f.Files events f' events') (hmark : f.event.mark? = some mark)
    (hevents : events.reverse.map Event.mark? = marks.map some) :
    ∃ new, events'.reverse.map Event.mark? = (marks ++ new).map some ∧
      f'.marks mark = f.marks mark ++ new := by
  cases h with
  | again => exact ⟨[], by rw [List.append_nil, hevents], (List.append_nil _).symm⟩
  | stored hverdict =>
    refine ⟨[mark], ?_, ?_⟩
    · rw [List.reverse_cons, List.map_append, hevents, List.map_append, List.map_singleton,
        List.map_singleton, hmark]
    · rw [marks_of_fresh hverdict, List.nil_append]
      rfl
  | refused error hverdict =>
    refine ⟨[], by rw [List.append_nil, hevents], ?_⟩
    rw [marks_of_fresh hverdict]
    rfl

namespace Service

variable {s : Service} {acts : List Mark}

theorem Steady.tick (h : s.Steady acts) : s.Steady (acts ++ [.ticked false]) := by
  cases h with
  | fromCreation hresumes j =>
    rw [← List.replicate_succ']
    exact .fromCreation hresumes (j + 1)
  | fromCatchUp hresumes hplan j =>
    rw [List.append_assoc, List.cons_append, ← List.replicate_succ']
    exact .fromCatchUp hresumes hplan (j + 1)

/-- What may be written before a pause may be written anyway. -/
theorem Acts.of_paused (h : s.Acts true acts) (paused : Bool) : s.Acts paused acts := by
  cases h with
  | steady hsteady => exact .steady hsteady
  | replaying hresumes hk hcut => exact .replaying hresumes hk fun heq => nomatch hcut heq

end Service

/-- A catch-up of a service, and what it has written of it. -/
structure CatchUpRun.Shows (run : CatchUpRun) (s : Service) (acts : List Mark) : Prop where
  resumes : s.resumes = true
  plan : s.plan = some run.plan
  applied : run.applied ≤ run.plan.units
  acts : acts = List.replicate run.applied.toNat (.ticked true)

/-- What a service has written before a tick. -/
def TickCause.Shows (s : Service) (acts : List Mark) : TickCause → Prop
  | .owed run => run.Shows s acts ∧ run.applied < run.plan.units
  | .due _ => s.Steady acts

/-- What a service has written by what its ticker does. -/
inductive Phase.Shows (s : Service) : Phase → List Mark → Prop where
  | starting (hresumes : s.resumes = false) : Shows s (.starting none) []
  | catchingUp {plan : CatchUpPlan} (hresumes : s.resumes = true) (hplan : s.plan = some plan) :
    Shows s (.starting (some plan)) []
  | replaying {run : CatchUpRun} {acts : List Mark} (h : run.Shows s acts) :
    Shows s (.replaying run) acts
  | yielding {run : CatchUpRun} {acts : List Mark} (h : run.Shows s acts) :
    Shows s (.yielding run) acts
  | replayed {run : CatchUpRun} {acts : List Mark} (h : run.Shows s acts) :
    Shows s (.replayed run) acts
  | publishing {cause : TickCause} {acts : List Mark} {world : World} (h : cause.Shows s acts) :
    Shows s (.publishing cause world) acts
  | recording {cause : TickCause} {acts : List Mark} {gameTime : Duration} {filing : Filing}
    (h : cause.Shows s acts) :
    Shows s (.recording cause gameTime filing) (acts ++ filing.marks (.ticked cause.isCatchUp))
  | askingWeather {cause : TickCause} {acts : List Mark} {synthetic : Utc} {season : Season}
    (h : cause.Shows s acts) :
    Shows s (.askingWeather cause synthetic season) (acts ++ [.ticked cause.isCatchUp])
  | resuming {run : CatchUpRun} {acts : List Mark} {filing : Filing} (h : run.Shows s acts)
    (hpending : run.pending = 0) :
    Shows s (.resuming run filing) (acts ++ filing.marks (.resumed run.plan.units))
  | waiting {due : Nat} {acts : List Mark} (h : s.Steady acts) : Shows s (.waiting due) acts
  | finished {pending : Count} {acts : List Mark} (h : s.Acts true acts) :
    Shows s (.finished pending) acts

namespace CatchUpRun

variable {run : CatchUpRun} {s : Service} {acts : List Mark}

theorem Shows.planned_eq (h : run.Shows s acts) : s.planned = run.plan.units.toNat := by
  rw [Service.planned, h.plan]

theorem Shows.acts_replaying (h : run.Shows s acts) : s.Acts false acts := by
  rw [h.acts]
  refine .replaying h.resumes ?_ fun _ => rfl
  rw [h.planned_eq]
  exact UInt64.le_iff_toNat_le.mp h.applied

theorem toNat_pending (run : CatchUpRun) :
    run.pending.toNat = run.plan.units.toNat - run.applied.toNat := by
  rw [pending, Count.toNat_sub]

/-- A catch-up that owes nothing is written whole. -/
theorem Shows.acts_of_pending (h : run.Shows s acts) (hpending : run.pending = 0) :
    acts = List.replicate run.plan.units.toNat (.ticked true) := by
  have hle := UInt64.le_iff_toNat_le.mp h.applied
  have hzero := run.toNat_pending
  rw [hpending] at hzero
  change 0 = _ at hzero
  rw [h.acts, show run.applied.toNat = run.plan.units.toNat by omega]

theorem Shows.acts_interrupted (h : run.Shows s acts) (hpending : run.pending ≠ 0) :
    s.Acts true acts := by
  have hle := UInt64.le_iff_toNat_le.mp h.applied
  have hne : run.applied.toNat ≠ run.plan.units.toNat := by
    intro heq
    refine hpending (UInt64.toNat_inj.mp ?_)
    rw [toNat_pending, heq, Nat.sub_self]
    rfl
  rw [h.acts]
  refine .replaying h.resumes ?_ fun heq => ?_
  · rw [h.planned_eq]
    exact hle
  · exact absurd (heq.trans h.planned_eq) hne

/-- One more tick of a catch-up is written. -/
theorem Shows.tick (h : run.Shows s acts) (hmore : run.applied < run.plan.units) :
    CatchUpRun.Shows { run with applied := run.applied.next } s (acts ++ [.ticked true]) := by
  have hlt := UInt64.lt_iff_toNat_lt.mp hmore
  have hgreatest := run.plan.units.toNat_le_greatest
  have hnext : run.applied.next.toNat = run.applied.toNat + 1 := by
    rw [Count.toNat_next]
    omega
  refine ⟨h.resumes, h.plan, ?_, ?_⟩
  · rw [UInt64.le_iff_toNat_le, hnext]
    exact hlt
  · rw [h.acts, hnext, List.replicate_succ']

end CatchUpRun

namespace TickCause

variable {cause : TickCause} {s : Service} {acts : List Mark}

theorem Shows.toActs (h : cause.Shows s acts) : s.Acts false acts := by
  cases cause with
  | due next => exact .steady h
  | owed run => exact h.1.acts_replaying

theorem Shows.acts_ticked (h : cause.Shows s acts) :
    s.Acts false (acts ++ [.ticked cause.isCatchUp]) := by
  cases cause with
  | due next => exact .steady h.tick
  | owed run => exact (h.1.tick h.2).acts_replaying

end TickCause

namespace Phase

variable {s : Service} {acts : List Mark}

theorem Shows.recording_start {cause : TickCause} (h : cause.Shows s acts) {gameTime : Duration}
    {e : Event} : Shows s (.recording cause gameTime (Filing.start e)) acts := by
  have hshows : Shows s (.recording cause gameTime (Filing.start e)) (acts ++ []) := .recording h
  rwa [List.append_nil] at hshows

theorem Shows.resuming_start {run : CatchUpRun} (h : run.Shows s acts) (hpending : run.pending = 0)
    {e : Event} : Shows s (.resuming run (Filing.start e)) acts := by
  have hshows : Shows s (.resuming run (Filing.start e)) (acts ++ []) := .resuming h hpending
  rwa [List.append_nil] at hshows

theorem shows_restAfter (w : Wiring) {cause : TickCause} (h : cause.Shows s acts) :
    Shows s (Ticker.restAfter w cause) (acts ++ [.ticked cause.isCatchUp]) := by
  cases cause with
  | due next => exact .waiting h.tick
  | owed run =>
    obtain ⟨hrun, hmore⟩ := h
    simp only [Ticker.restAfter]
    split
    · exact .yielding (hrun.tick hmore)
    · exact .replaying (hrun.tick hmore)

theorem Shows.toActs {phase : Phase} (h : Shows s phase acts) : s.Acts false acts := by
  cases h with
  | starting hresumes => exact .steady (.fromCreation hresumes 0)
  | catchingUp hresumes => exact .replaying hresumes (Nat.zero_le _) fun _ => rfl
  | replaying hrun | yielding hrun | replayed hrun => exact hrun.acts_replaying
  | publishing hcause => exact hcause.toActs
  | recording hcause =>
    rw [Filing.marks]
    split
    · exact hcause.acts_ticked
    · rw [List.append_nil]
      exact hcause.toActs
  | askingWeather hcause => exact hcause.acts_ticked
  | resuming hrun hpending =>
    rw [Filing.marks]
    split
    · rw [hrun.acts_of_pending hpending]
      exact .steady (.fromCatchUp hrun.resumes hrun.plan 0)
    · rw [List.append_nil]
      exact hrun.acts_replaying
  | waiting hsteady => exact .steady hsteady
  | finished hacts => exact hacts.of_paused false

end Phase

theorem Ticker.Begins.shows {w : Wiring} {m : Moment} {t : Ticker} {cause : TickCause}
    {s : Service} {acts : List Mark} (h : t.Begins w m cause) (hshows : t.phase.Shows s acts) :
    cause.Shows s acts := by
  cases h with
  | owed hphase hpending =>
    rw [hphase] at hshows
    cases hshows with
    | replaying hrun => exact ⟨hrun, hpending⟩
  | due hphase =>
    rw [hphase] at hshows
    cases hshows with
    | waiting hsteady => exact hsteady

/-- A step of a ticker writes nothing by itself: what it goes on with was stored before. -/
theorem Ticker.Goes.shows {w : Wiring} {m : Moment} {t t' : Ticker} {entry entry' : World}
    {s : Service} {acts : List Mark} (h : t.Goes w m entry t' entry')
    (hlive : t'.phase.isCrashed = false)
    (hstored : ∀ f, t.filing? = some f → t'.filing? = none → f.isStored = true)
    (hshows : t.phase.Shows s acts) : t'.phase.Shows s acts := by
  cases h with
  | begin hphase =>
    rw [hphase] at hshows
    cases hshows with
    | starting hresumes => exact .waiting (.fromCreation hresumes 0)
  | beginReplay hphase =>
    rw [hphase] at hshows
    cases hshows with
    | catchingUp hresumes hplan =>
      exact .replaying ⟨hresumes, hplan, UInt64.le_iff_toNat_le.mpr (Nat.zero_le _), rfl⟩
  | tick hbegins => exact .publishing (hbegins.shows hshows)
  | tickUnpublished hbegins => exact .recording_start (hbegins.shows hshows)
  | published hphase =>
    rw [hphase] at hshows
    cases hshows with
    | publishing hcause => exact .recording_start hcause
  | recorded hphase =>
    rw [hphase] at hshows
    cases hshows with
    | recording hcause =>
      have hfiling := hstored _ (by rw [filing?, hphase]) (filing?_endTick _ _ _)
      rw [Filing.marks_of_stored hfiling]
      exact Phase.shows_restAfter w hcause
  | asked hphase =>
    rw [hphase] at hshows
    cases hshows with
    | recording hcause =>
      have hfiling := hstored _ (by rw [filing?, hphase]) rfl
      rw [Filing.marks_of_stored hfiling]
      exact .askingWeather hcause
  | weathered hphase =>
    rw [hphase] at hshows
    cases hshows with
    | askingWeather hcause => exact Phase.shows_restAfter w hcause
  | goOn hphase =>
    rw [hphase] at hshows
    cases hshows with
    | yielding hrun => exact .replaying hrun
  | endReplay hphase =>
    rw [hphase] at hshows
    cases hshows with
    | replaying hrun => exact .replayed hrun
  | interrupt hphase hpending =>
    rw [hphase] at hshows
    cases hshows with
    | replayed hrun => exact .finished (hrun.acts_interrupted hpending)
  | complete hphase hpending =>
    rw [hphase] at hshows
    cases hshows with
    | replayed hrun => exact .resuming_start hrun hpending
  | resumed hphase =>
    rw [hphase] at hshows
    cases hshows with
    | resuming hrun hpending =>
      have hfiling := hstored _ (by rw [filing?, hphase]) rfl
      rw [Filing.marks_of_stored hfiling, hrun.acts_of_pending hpending]
      exact .waiting (.fromCatchUp hrun.resumes hrun.plan 0)
  | halt hphase =>
    rw [hphase] at hshows
    cases hshows with
    | waiting hsteady => exact .finished (.steady hsteady)
  | crash => cases hlive

/-- A world that is paused is resumed with a catch-up. -/
theorem World.exists_planAt {known : World} (hpaused : known.status = .paused)
    (hmarker : known.markerFits = true) (interval : Duration) (now : Instant) :
    ∃ plan, known.planAt interval now = some plan := by
  obtain ⟨pausedAt, hsome⟩ : ∃ pausedAt, known.pausedAt = some pausedAt := by
    refine Option.isSome_iff_exists.mp ?_
    simpa [markerFits, hpaused] using hmarker
  exact ⟨_, by rw [planAt, hpaused, hsome]⟩

/-! ### What a view recounts -/

namespace View

/-- The service of a world is under way: what it has written since its creation, and whether it has
written its pause. -/
inductive Active (a : WorldId) (v : View) (s : Service) : List Mark → Bool → Prop where
  | creating {order : SpawnOrder} {filing : Filing}
    (herrand : v.errand = some (.spawn order (.creating filing)))
    (hstored : filing.isStored = true) (hresumes : s.resumes = false) : Active a v s [] false
  | announcing {order : SpawnOrder} {known : World} {filing : Filing}
    (herrand : v.errand = some (.spawn order (.announcing known filing)))
    (hstored : filing.isStored = true) (hresumes : s.resumes = true)
    (hpaused : known.status = .paused) : Active a v s [] false
  | ticking {t : Ticker} {acts : List Mark} (hticker : v.ticker = some t)
    (hshows : t.phase.Shows s acts) : Active a v s acts false
  | pausing {filing : Filing} {world : World} {pending : Count} {acts : List Mark} {paused : Bool}
    (herrand : v.errand = some (.stop a (.recording filing world pending)))
    (hacts : s.Acts true acts) (hpaused : filing.isStored = paused) : Active a v s acts paused

/-- No service of a world is under way, and no event of it is stored unless one opens with it. -/
structure Idle (v : View) : Prop where
  ticker : v.ticker = none
  filing : ∀ f, v.filing? = some f → f.isStored = false
  errand : ∀ world stage, v.errand ≠ some (.stop world stage)
  entry : ∀ entry, v.entry = some entry → entry.status = .paused

/-- A service is under way, and others have come before it. -/
structure Follows (s : Service) (services : List Service) (marks : List Mark) : Prop where
  past : Succession services marks
  areOver : AreOver services
  resumes : s.resumes = !services.isEmpty
  underWay : s.ending = none

/-- The services of a world have written these marks, and its view tells how far the latest one has
come. -/
inductive Served (a : WorldId) (v : View) : List Service → List Mark → Prop where
  | idle {services : List Service} {marks : List Mark} (hpast : Succession services marks)
    (hover : AreOver services) (hidle : v.Idle) : Served a v services marks
  | active {s : Service} {services : List Service} {marks acts : List Mark} {paused : Bool}
    (hfollows : Follows s services marks) (hactive : v.Active a s acts paused) :
    Served a v (s :: services) (marks ++ s.written acts paused)

/-- The history of a world is what its services have written. -/
def Recounts (a : WorldId) (v : View) (services : List Service) : Prop :=
  ∃ marks, v.events.reverse.map Event.mark? = marks.map some ∧ v.Served a services marks

variable {w : Wiring} {m : Moment} {a : WorldId} {v v' : View} {s : Service}
  {services : List Service} {marks acts : List Mark} {paused : Bool}

theorem idle_of_plain (hticker : v.ticker = none) (herrand : v.errand = none)
    (hentry : ∀ entry, v.entry = some entry → entry.status = .paused) : v.Idle where
  ticker := hticker
  filing f hf := by
    rw [filing?_of_idle hticker herrand] at hf
    cases hf
  errand world stage := by
    rw [herrand]
    rintro ⟨⟩
  entry := hentry

theorem Active.toActs (h : v.Active a s acts paused) : s.Acts paused acts := by
  cases h with
  | creating herrand hstored hresumes => exact .steady (.fromCreation hresumes 0)
  | announcing herrand hstored hresumes => exact .replaying hresumes (Nat.zero_le _) fun _ => rfl
  | ticking hticker hshows => exact hshows.toActs
  | pausing herrand hacts => exact hacts.of_paused _

/-- The pause of a service is written exactly if the service ends stopped. -/
theorem Active.ending_iff (hc : v.Coherent w a) (h : v.Active a s acts paused) :
    paused = true ↔ v.ending = .stopped := by
  cases h with
  | creating herrand | announcing herrand =>
    rw [ending, herrand]
    exact ⟨by rintro ⟨⟩, by rintro ⟨⟩⟩
  | @ticking t acts hticker =>
    have hkilled : v.ending = .killed := by
      obtain ⟨-, -, -, ⟨hnone, -⟩ | ⟨hjoining, -⟩⟩ := hc.ticker t hticker
      · rw [ending, hnone]
      · rw [ending, hjoining]
    rw [hkilled]
    exact ⟨by rintro ⟨⟩, by rintro ⟨⟩⟩
  | @pausing filing world pending acts paused herrand hacts hpaused =>
    rw [ending, herrand]
    cases paused <;> simp [hpaused]

theorem Served.succession (h : v.Served a services marks) : Succession services marks := by
  cases h with
  | idle hpast => exact hpast
  | active hfollows hactive =>
    refine .cons hfollows.past hfollows.areOver hfollows.resumes
      (.intro _ hactive.toActs fun ending hending => ?_)
    rw [hfollows.underWay] at hending
    cases hending

/-- A service that ends has written what the grammar says. -/
theorem Follows.succession_close (h : Follows s services marks) (hacts : s.Acts paused acts)
    {ending : Ending} (hending : paused = true ↔ ending = .stopped) :
    Succession (s.close ending :: services) (marks ++ s.written acts paused) := by
  have hclose : s.close ending = { s with ending := some ending } := if_pos h.underWay
  have hwritten : s.written acts paused = (s.close ending).written acts paused := by
    rw [Service.written, Service.written, s.resumes_close ending]
  rw [hwritten]
  refine .cons h.past h.areOver ((s.resumes_close ending).trans h.resumes)
    (.intro paused (hacts.close ending) fun ending' h' => ?_)
  rw [hclose] at h'
  rw [← Option.some.inj h']
  exact hending

theorem Follows.areOver_close (h : Follows s services marks) (ending : Ending) :
    AreOver (s.close ending :: services) := by
  intro s' hs'
  rw [← Option.some.inj hs', Service.close, if_pos h.underWay]
  exact Option.some_ne_none ending

theorem take_ends_of_areOver (hover : AreOver services) (ending : Ending) :
    Service.take services (.ends ending) = services := by
  cases services with
  | nil => rfl
  | cons s services =>
    change s.close ending :: services = s :: services
    rw [Service.close, if_neg (hover s rfl)]

/-- A death ends the service under way. -/
theorem Recounts.afterDeath (hc : v.Coherent w a) (h : v.Recounts a services) :
    v.afterDeath.Recounts a (Service.take services (.ends v.ending)) := by
  obtain ⟨marks, hmarks, hserved⟩ := h
  have hidle : v.afterDeath.Idle := idle_of_plain rfl rfl (by rintro entry ⟨⟩)
  refine ⟨marks, hmarks, ?_⟩
  cases hserved with
  | idle hpast hover =>
    rw [take_ends_of_areOver hover]
    exact .idle hpast hover hidle
  | active hfollows hactive =>
    exact .idle (hfollows.succession_close hactive.toActs (hactive.ending_iff hc))
      (hfollows.areOver_close _) hidle

/-! ### Steps -/

theorem noteTurn_of_none (hturn : v.turn? v' = none) (m : Moment) (move : Move) :
    noteTurn v (.move m move) v' services = services := by
  rw [noteTurn, hturn, Option.map_none, Option.getD_none]

theorem noteTurn_of_some (turn : Turn) (hturn : v.turn? v' = some turn) (m : Moment)
    (move : Move) : noteTurn v (.move m move) v' services = Service.take services turn := by
  rw [noteTurn, hturn, Option.map_some, Option.getD_some]

theorem Recounts.idle (hmarks : v.events.reverse.map Event.mark? = marks.map some)
    (hpast : Succession services marks) (hover : AreOver services) (hevents : v'.events = v.events)
    (hidle : v'.Idle) : v'.Recounts a services :=
  ⟨marks, hevents ▸ hmarks, .idle hpast hover hidle⟩

/-- A service opens when the log takes the event of a spawn. -/
theorem recounts_opening {e : Event} {resumes : Bool}
    (hmarks : v.events.reverse.map Event.mark? = marks.map some)
    (hpast : Succession services marks) (hover : AreOver services)
    (hresumes : resumes = !services.isEmpty) (hmark : e.mark? = some (.created resumes))
    (hevents : v'.events = e :: v.events) (hactive : v'.Active a ⟨resumes, none, none⟩ [] false) :
    v'.Recounts a (Service.take services (.opens resumes)) := by
  refine ⟨_, ?_, .active ⟨hpast, hover, hresumes, rfl⟩ hactive⟩
  rw [hevents, List.reverse_cons, List.map_append, hmarks, List.map_append, List.map_singleton,
    hmark]
  rfl

/-- A spawn goes on, and the log has not taken an event of it. -/
theorem Idle.onSpawn (hidle : v.Idle) {entry : Option World} {order : SpawnOrder}
    {stage : SpawnStage} {events : List Event}
    (hentry : ∀ known, entry = some known → known.status = .paused)
    (hfiling : ∀ f, (Errand.spawn order stage).filing? = some f → f.isStored = false) :
    (View.mk entry v.ticker (some (.spawn order stage)) events).Idle where
  ticker := hidle.ticker
  filing f hf := hfiling f ((filing?_onErrand hidle.ticker).symm.trans hf)
  errand := by rintro world stage ⟨⟩
  entry := hentry

theorem Idle.unstored (hidle : v.Idle) {errand : Errand} (herrand : v.errand = some errand)
    {filing : Filing} (hfiling : errand.filing? = some filing) : filing.isStored = false :=
  hidle.filing filing ((filing?_of_errand hidle.ticker herrand).trans hfiling)

theorem isEmpty_eq_of_succession (h : Succession services marks)
    (hmarks : v.events.reverse.map Event.mark? = marks.map some) :
    services.isEmpty = v.events.isEmpty := by
  have hlength := congrArg List.length hmarks
  rw [List.length_map, List.length_reverse, List.length_map] at hlength
  rw [Bool.eq_iff_iff, List.isEmpty_iff, List.isEmpty_iff, h.eq_nil_iff,
    ← List.length_eq_zero_iff, ← List.length_eq_zero_iff, hlength]

/-- While no service is under way, a step opens one or leaves all as they are. -/
theorem Step.recounts_of_idle (hv : v.IsSound w a) (hannounce : w.clock.announceResume = true)
    (hsteps : v.Step w m a v') (hmarks : v.events.reverse.map Event.mark? = marks.map some)
    (hpast : Succession services marks) (hover : AreOver services) (hidle : v.Idle) (move : Move) :
    v'.Recounts a (noteTurn v (.move m move) v' services) := by
  have hc := hv.coherent
  have hempty := isEmpty_eq_of_succession hpast hmarks
  cases hsteps with
  | askKnown hworld herrand | askUnknown hworld herrand =>
    rw [noteTurn_of_none (by rw [turn?, herrand])]
    exact Recounts.idle hmarks hpast hover rfl (hidle.onSpawn hidle.entry (by rintro f ⟨⟩))
  | create herrand | announce herrand =>
    rw [noteTurn_of_none (by rw [turn?, herrand])]
    refine Recounts.idle hmarks hpast hover rfl (hidle.onSpawn hidle.entry fun f hf => ?_)
    rw [← Option.some.inj hf]
    rfl
  | restore herrand =>
    rw [noteTurn_of_none (by rw [turn?, herrand])]
    exact Recounts.idle hmarks hpast hover rfl
      (hidle.onSpawn (by rintro known ⟨⟩; rfl) (by rintro f ⟨⟩))
  | takeUp herrand hquiet =>
    rw [hannounce] at hquiet
    cases hquiet
  | takeUpAnnounced herrand hfiled | enroll herrand hfiled =>
    have hunstored := hidle.unstored herrand rfl
    rw [Filing.isStored_iff.mpr hfiled] at hunstored
    cases hunstored
  | @fileCreation order filing filing' events' herrand hfiles =>
    have hunstored := hidle.unstored herrand rfl
    obtain ⟨hsame, hevents⟩ | ⟨hfresh, hstored, hevents⟩ := hfiles.stored_cases
    · rw [noteTurn_of_none (by rw [turn?, herrand]; simp [hsame, hunstored])]
      refine Recounts.idle hmarks hpast hover hevents (hidle.onSpawn hidle.entry ?_)
      rintro f ⟨⟩
      exact hsame.trans hunstored
    · obtain ⟨now, hevent, hfirst, -⟩ := hv.chronicled.creation order filing herrand
      obtain ⟨-, haccepted, -⟩ := hc.errand _ herrand
      rw [noteTurn_of_some (.opens false) (by rw [turn?, herrand]; simp [hstored, hunstored])]
      -- Nothing was stored before, so there is no service before.
      refine recounts_opening hmarks hpast hover ?_ ?_ hevents (.creating rfl hstored rfl)
      · rw [hempty, hfirst hfresh]
        rfl
      · rw [hevent]
        exact SpawnOrder.mark?_creation haccepted a 1 now false
  | @fileAnnouncement order known filing filing' events' herrand hfiles =>
    have hunstored := hidle.unstored herrand rfl
    obtain ⟨hsame, hevents⟩ | ⟨hfresh, hstored, hevents⟩ := hfiles.stored_cases
    · rw [noteTurn_of_none (by rw [turn?, herrand]; simp [hsame, hunstored])]
      refine Recounts.idle hmarks hpast hover hevents (hidle.onSpawn hidle.entry ?_)
      rintro f ⟨⟩
      exact hsame.trans hunstored
    · obtain ⟨hentry, version, now, hevent⟩ := hv.attuned.announcing order known filing herrand
      obtain ⟨-, haccepted, -, hknown, -⟩ := hc.errand _ herrand
      rw [noteTurn_of_some (.opens true) (by rw [turn?, herrand]; simp [hstored, hunstored])]
      -- A known world has a history, so there are services before.
      refine recounts_opening hmarks hpast hover ?_ ?_ hevents
        (.announcing rfl hstored rfl (hidle.entry known hentry))
      · rw [hempty, List.isEmpty_eq_false_iff.mpr (hv.chronicled.entry hknown)]
        rfl
      · rw [hevent]
        exact SpawnOrder.mark?_creation haccepted a version now true
  | @giveUp errand herrand =>
    have hservices : noteTurn v (.move m move) { v with errand := none } services = services := by
      cases errand with
      | spawn order stage =>
        rw [noteTurn_of_some (.ends .abandoned), take_ends_of_areOver hover]
        rw [turn?, herrand, hidle.ticker]
        cases stage <;> rfl
      | stop world stage => exact absurd herrand (hidle.errand world stage)
      | _ => cases hc.errand _ herrand
    rw [hservices]
    exact Recounts.idle hmarks hpast hover rfl (idle_of_plain hidle.ticker rfl hidle.entry)
  | filePause herrand | pause herrand | breakDown herrand | pauseBroken herrand =>
    exact absurd herrand (hidle.errand _ _)
  | askStop _ hticker | goes hticker | fileTick hticker | fileResumption hticker =>
    rw [hidle.ticker] at hticker
    cases hticker

/-- While a service is under way, its errand or its ticker goes on. -/
theorem Follows.recounts (h : Follows s services marks)
    (hmarks : v'.events.reverse.map Event.mark? = (marks ++ s.written acts paused).map some)
    (hactive : v'.Active a s acts paused) : v'.Recounts a (s :: services) :=
  ⟨_, hmarks, .active h hactive⟩

theorem Follows.launch (h : Follows s services marks) (plan : Option CatchUpPlan) :
    Follows { s with plan := plan } services marks := ⟨h.past, h.areOver, h.resumes, h.underWay⟩

/-- The log sees an append of the service under way. -/
theorem Follows.recounts_filed (h : Follows s services marks) {f f' : Filing} {mark : Mark}
    {acts' : List Mark} {paused' : Bool}
    (hfiles : f.Files v.events f' v'.events) (hmark : f.event.mark? = some mark)
    (hmarks : v.events.reverse.map Event.mark? = (marks ++ s.written acts paused).map some)
    (hwritten : ∀ new, f'.marks mark = f.marks mark ++ new →
      s.written acts' paused' = s.written acts paused ++ new)
    (hactive : v'.Active a s acts' paused') : v'.Recounts a (s :: services) := by
  obtain ⟨new, hmarks', hnew⟩ := hfiles.marks hmark hmarks
  refine h.recounts ?_ hactive
  rw [hmarks', hwritten new hnew, List.append_assoc]

theorem turn?_of_ticker (hc : v.Coherent w a) {t : Ticker} (hticker : v.ticker = some t)
    (v' : View) : v.turn? v' = none := by
  obtain ⟨-, -, -, ⟨hnone, -⟩ | ⟨hjoining, -⟩⟩ := hc.ticker t hticker
  · rw [turn?, hnone]
  · rw [turn?, hjoining]

theorem Step.recounts_of_ticking (hv : v.IsSound w a) (hsteps : v.Step w m a v')
    (hstores : v.loses v' = false) (hlive : v'.isBroken = false)
    (hfollows : Follows s services marks) {t : Ticker} (hticker : v.ticker = some t)
    (hshows : t.phase.Shows s acts)
    (hmarks : v.events.reverse.map Event.mark? = (marks ++ s.written acts false).map some)
    (move : Move) : v'.Recounts a (noteTurn v (.move m move) v' (s :: services)) := by
  have hc := hv.coherent
  rw [noteTurn_of_none (turn?_of_ticker hc hticker v')]
  cases hsteps with
  | askStop herrand hsome =>
    obtain rfl := Option.some.inj (hsome.symm.trans hticker)
    exact hfollows.recounts hmarks (.ticking rfl hshows)
  | pause herrand hsome hphase =>
    obtain rfl := Option.some.inj (hsome.symm.trans hticker)
    rw [hphase] at hshows
    cases hshows with
    | finished hacts => exact hfollows.recounts hmarks (.pausing rfl hacts rfl)
  | breakDown herrand hsome hphase =>
    obtain rfl := Option.some.inj (hsome.symm.trans hticker)
    rw [hphase] at hshows
    cases hshows
  | goes hsome hentry hgoes =>
    obtain rfl := Option.some.inj (hsome.symm.trans hticker)
    refine hfollows.recounts hmarks (.ticking rfl (hgoes.shows hlive (fun f hbefore hafter => ?_)
      hshows))
    exact Filing.isStored_iff.mpr (isStored_of_loses hstores
      ((filing?_of_ticker hticker).trans hbefore) ((filing?_of_ticker rfl).trans hafter) hlive)
  | @fileTick t cause gameTime filing filing' events' hsome hphase hfiles =>
    obtain rfl := Option.some.inj (hsome.symm.trans hticker)
    obtain ⟨entry, -, -, htells⟩ := hv.attuned.tick_tells hv.chronicled hc hticker hphase
    have hmark : filing.event.mark? = some (.ticked cause.isCatchUp) := htells.mark?_eq
    rw [hphase] at hshows
    cases hshows with
    | recording hcause =>
      refine hfollows.recounts_filed hfiles hmark hmarks (fun new hnew => ?_)
        (.ticking rfl (.recording hcause))
      rw [hnew, ← List.append_assoc, s.written_append]
  | @fileResumption t run filing filing' events' hsome hphase hfiles =>
    obtain rfl := Option.some.inj (hsome.symm.trans hticker)
    obtain ⟨entry, -, -, htells⟩ := hv.attuned.resumption_tells hv.chronicled hc hticker hphase
    have hmark : filing.event.mark? = some (.resumed run.plan.units) := htells.mark?_eq
    rw [hphase] at hshows
    cases hshows with
    | resuming hrun hpending =>
      refine hfollows.recounts_filed hfiles hmark hmarks (fun new hnew => ?_)
        (.ticking rfl (.resuming hrun hpending))
      rw [hnew, ← List.append_assoc, s.written_append]
  | giveUp herrand hjoining => exact absurd (hc.errand_eq_joining hticker herrand) hjoining
  | askKnown _ _ hnone | askUnknown _ _ hnone =>
    rw [hticker] at hnone
    cases hnone
  | create herrand | restore herrand | announce herrand | takeUp herrand | takeUpAnnounced herrand
  | enroll herrand | fileCreation herrand | fileAnnouncement herrand | filePause herrand
  | pauseBroken herrand =>
    cases hc.errand_eq_joining hticker herrand

theorem Step.recounts_of_pausing (hv : v.IsSound w a) (hsteps : v.Step w m a v')
    (hstores : v.loses v' = false) (hlive : v'.isBroken = false)
    (hfollows : Follows s services marks) {filing : Filing} {world : World} {pending : Count}
    (herrand : v.errand = some (.stop a (.recording filing world pending)))
    (hacts : s.Acts true acts)
    (hmarks : v.events.reverse.map Event.mark? =
      (marks ++ s.written acts filing.isStored).map some)
    (move : Move) : v'.Recounts a (noteTurn v (.move m move) v' (s :: services)) := by
  have hc := hv.coherent
  have hticker := hc.ticker_eq_none_of_ne herrand (by rintro ⟨⟩)
  cases hsteps with
  | filePause hsome hfiles =>
    obtain ⟨⟩ := Option.some.inj (hsome.symm.trans herrand)
    obtain ⟨-, -, pausedAt, -, htells⟩ := hv.attuned.pause_tells hv.chronicled herrand
    rw [noteTurn_of_none (by rw [turn?, herrand])]
    refine hfollows.recounts_filed hfiles htells.mark?_eq hmarks (fun new hnew => ?_)
      (.pausing rfl hacts rfl)
    exact (congrArg (_ ++ ·) hnew).trans (List.append_assoc _ _ _).symm
  | giveUp hsome =>
    obtain rfl := Option.some.inj (hsome.symm.trans herrand)
    -- The stop is over, and no append is lost: the log has taken the pause.
    have hstored : filing.isStored = true := Filing.isStored_iff.mpr
      (isStored_of_loses hstores (filing?_of_errand hticker herrand) (filing?_of_idle hticker rfl)
        hlive)
    obtain ⟨hentry, hstatus, -⟩ := hv.attuned.recording filing world pending herrand
    rw [noteTurn_of_some (.ends .stopped) (by rw [turn?, herrand]; simp [ending, herrand, hstored])]
    refine Recounts.idle hmarks (hfollows.succession_close (hacts.of_paused _) ?_)
      (hfollows.areOver_close _) rfl (idle_of_plain hticker rfl fun entry hsome => ?_)
    · rw [hstored]
      exact ⟨fun _ => rfl, fun _ => rfl⟩
    · rw [← Option.some.inj (hentry.symm.trans hsome)]
      exact hstatus
  | askKnown _ hnone | askUnknown _ hnone | askStop hnone =>
    rw [herrand] at hnone
    cases hnone
  | goes hsome | fileTick hsome | fileResumption hsome =>
    rw [hticker] at hsome
    cases hsome
  | create hsome | restore hsome | announce hsome | takeUp hsome | takeUpAnnounced hsome
  | enroll hsome | fileCreation hsome | fileAnnouncement hsome | pause hsome | breakDown hsome
  | pauseBroken hsome =>
    rw [herrand] at hsome
    cases hsome

theorem Step.recounts_of_creating (hv : v.IsSound w a) (hsteps : v.Step w m a v')
    (hfollows : Follows s services marks) {order : SpawnOrder} {filing : Filing}
    (herrand : v.errand = some (.spawn order (.creating filing)))
    (hstored : filing.isStored = true) (hresumes : s.resumes = false)
    (hmarks : v.events.reverse.map Event.mark? = (marks ++ s.written [] false).map some)
    (move : Move) : v'.Recounts a (noteTurn v (.move m move) v' (s :: services)) := by
  have hc := hv.coherent
  have hticker := hc.ticker_eq_none herrand
  cases hsteps with
  | fileCreation hsome hfiles =>
    obtain ⟨⟩ := Option.some.inj (hsome.symm.trans herrand)
    obtain ⟨hsame, hevents⟩ | ⟨hfresh, -⟩ := hfiles.stored_cases
    · rw [noteTurn_of_none (by rw [turn?, herrand]; simp [hstored])]
      refine hfollows.recounts ?_ (.creating rfl (hsame.trans hstored) hresumes)
      rw [hevents]
      exact hmarks
    · rw [Filing.isStored, hfresh] at hstored
      cases hstored
  | enroll hsome hfiled hnew =>
    obtain ⟨delta, -, rfl⟩ := Option.map_eq_some_iff.mp hnew
    rw [noteTurn_of_some (.launches none) (by rw [turn?, herrand]; rfl)]
    exact (hfollows.launch none).recounts hmarks (.ticking rfl (.starting hresumes))
  | giveUp hsome =>
    rw [noteTurn_of_some (.ends .abandoned) (by rw [turn?, herrand, hticker])]
    obtain ⟨-, -, -, hentry, -⟩ := hc.errand _ herrand
    refine Recounts.idle hmarks (hfollows.succession_close
      (.steady (.fromCreation hresumes 0)) ⟨by rintro ⟨⟩, by rintro ⟨⟩⟩)
      (hfollows.areOver_close _) rfl (idle_of_plain hticker rfl fun entry hsome => ?_)
    cases hentry.symm.trans hsome
  | askKnown _ hnone | askUnknown _ hnone | askStop hnone =>
    rw [herrand] at hnone
    cases hnone
  | goes hsome | fileTick hsome | fileResumption hsome =>
    rw [hticker] at hsome
    cases hsome
  | create hsome | restore hsome | announce hsome | takeUp hsome | takeUpAnnounced hsome
  | fileAnnouncement hsome | filePause hsome | pause hsome | breakDown hsome
  | pauseBroken hsome =>
    rw [herrand] at hsome
    cases hsome

theorem Step.recounts_of_announcing (hv : v.IsSound w a) (hsteps : v.Step w m a v')
    (hfollows : Follows s services marks) {order : SpawnOrder} {known : World} {filing : Filing}
    (herrand : v.errand = some (.spawn order (.announcing known filing)))
    (hstored : filing.isStored = true) (hresumes : s.resumes = true)
    (hpaused : known.status = .paused)
    (hmarks : v.events.reverse.map Event.mark? = (marks ++ s.written [] false).map some)
    (move : Move) : v'.Recounts a (noteTurn v (.move m move) v' (s :: services)) := by
  have hc := hv.coherent
  have hticker := hc.ticker_eq_none herrand
  obtain ⟨hentry, -⟩ := hv.attuned.announcing order known filing herrand
  cases hsteps with
  | fileAnnouncement hsome hfiles =>
    obtain ⟨⟩ := Option.some.inj (hsome.symm.trans herrand)
    obtain ⟨hsame, hevents⟩ | ⟨hfresh, -⟩ := hfiles.stored_cases
    · rw [noteTurn_of_none (by rw [turn?, herrand]; simp [hstored])]
      refine hfollows.recounts ?_ (.announcing rfl (hsame.trans hstored) hresumes hpaused)
      rw [hevents]
      exact hmarks
    · rw [Filing.isStored, hfresh] at hstored
      cases hstored
  | takeUpAnnounced hsome hfiled hget hnew =>
    obtain ⟨⟩ := Option.some.inj (hsome.symm.trans herrand)
    obtain ⟨plan, hplan⟩ := World.exists_planAt hpaused (hc.markerFits hentry)
      w.clock.tickInterval m.wall
    obtain ⟨delta, -, rfl⟩ := Option.map_eq_some_iff.mp hnew
    rw [noteTurn_of_some (.launches (some plan)) (by rw [turn?, herrand, ← hplan]; rfl)]
    refine (hfollows.launch (some plan)).recounts hmarks (.ticking rfl ?_)
    rw [hplan]
    exact .catchingUp hresumes rfl
  | giveUp hsome =>
    rw [noteTurn_of_some (.ends .abandoned) (by rw [turn?, herrand, hticker])]
    refine Recounts.idle hmarks (hfollows.succession_close
      (.replaying hresumes (Nat.zero_le _) fun _ => rfl) ⟨by rintro ⟨⟩, by rintro ⟨⟩⟩)
      (hfollows.areOver_close _) rfl (idle_of_plain hticker rfl fun entry hsome => ?_)
    rw [← Option.some.inj (hentry.symm.trans hsome)]
    exact hpaused
  | askKnown _ hnone | askUnknown _ hnone | askStop hnone =>
    rw [herrand] at hnone
    cases hnone
  | goes hsome | fileTick hsome | fileResumption hsome =>
    rw [hticker] at hsome
    cases hsome
  | create hsome | restore hsome | announce hsome | takeUp hsome | enroll hsome
  | fileCreation hsome | filePause hsome | pause hsome | breakDown hsome | pauseBroken hsome =>
    rw [herrand] at hsome
    cases hsome

/-- A step keeps a history in the grammar of its services. -/
theorem Step.recounts (hv : v.IsSound w a) (hannounce : w.clock.announceResume = true)
    (hsteps : v.Step w m a v') (hstores : v.loses v' = false) (hlive : v'.isBroken = false)
    (h : v.Recounts a services) (move : Move) :
    v'.Recounts a (noteTurn v (.move m move) v' services) := by
  obtain ⟨marks, hmarks, hserved⟩ := h
  cases hserved with
  | idle hpast hover hidle =>
    exact hsteps.recounts_of_idle hv hannounce hmarks hpast hover hidle move
  | active hfollows hactive =>
    cases hactive with
    | creating herrand hstored hresumes =>
      exact hsteps.recounts_of_creating hv hfollows herrand hstored hresumes hmarks move
    | announcing herrand hstored hresumes hpaused =>
      exact hsteps.recounts_of_announcing hv hfollows herrand hstored hresumes hpaused hmarks move
    | ticking hticker hshows =>
      exact hsteps.recounts_of_ticking hv hstores hlive hfollows hticker hshows hmarks move
    | pausing herrand hacts hpaused =>
      exact hsteps.recounts_of_pausing hv hstores hlive hfollows herrand hacts
        (hpaused.symm ▸ hmarks) move

theorem turn?_self (v : View) : v.turn? v = none := by
  rw [turn?]
  cases v.errand with
  | none => rfl
  | some errand =>
    cases errand with
    | spawn order stage => cases stage <;> simp
    | stop world stage => cases stage <;> rfl
    | _ => rfl

end View

namespace Manager

/-- Whatever happens to a line of processes that announce what they resume, as long as every append
about a world is stored and no ticker of it breaks down: the history of the world is what its
services have written, each by the grammar, one after the other. -/
theorem lifecycle_of_services {w : Wiring} (hw : w.IsUsable) {log : EventLog}
    (projections : Option (Dispatcher ReadModel)) {a : WorldId} (hfresh : log.about a = [])
    {course : List Incident} (hown : ∀ i ∈ course, i.IsOwn)
    (hwell : (start w log projections).runsWell a course = true) :
    let p := start w log projections
    ∃ marks : List Mark,
      ((p.live course).surroundings.log.byAggregate a.text 1).map Event.mark? = marks.map some ∧
        Succession (p.services a course) marks := by
  intro p
  rw [runsWell, Bool.and_eq_true] at hwell
  obtain ⟨hannounce, hrule⟩ := hwell
  have hstart : (p.viewOf a).Recounts a [] := by
    rw [viewOf_start w projections hfresh]
    exact ⟨[], rfl, .idle .nil (by rintro s ⟨⟩) (View.idle_of_plain rfl rfl (by rintro entry ⟨⟩))⟩
  obtain ⟨hsound, -, marks, hmarks, hserved⟩ := observe_keeps _ View.noteTurn
    (fun w v services => w.clock.announceResume = true ∧ v.Recounts a services)
    (fun w m move v services _ _ ⟨hannounce, h⟩ =>
      ⟨hannounce, (View.noteTurn_of_none v.turn?_self m move).symm ▸ h⟩)
    (fun w m move v v' services hv hwell hsteps ⟨hannounce, h⟩ => by
      simp only [Bool.and_eq_true, Bool.not_eq_true'] at hwell
      exact ⟨hannounce, hsteps.recounts hv hannounce hwell.1 hwell.2 h move⟩)
    (fun w w' projections v services hv _ hannounce' ⟨_, h⟩ =>
      ⟨hannounce', h.afterDeath hv.coherent⟩)
    (coherent_start w log projections) (isSound_start hw projections hfresh) hown hrule []
    ⟨hannounce, hstart⟩
  refine ⟨marks, ?_, hserved.succession⟩
  rw [EventLog.byAggregate_eq hsound.chronicled.ascends]
  exact hmarks

/-- The interrupted resumption comes to its end, and the process dies. -/
def interruptedAndEnded (world : WorldId) : List Incident :=
  interruptedOnce world ++ [.move (momentAt 370) (.conclude .answered), .death .standard none]

theorem lifecycle_of_interruptedAndEnded :
    let p := start .standard .empty none
    (∃ marks : List Mark,
      ((p.live (interruptedAndEnded ⟨⟨0⟩⟩)).surroundings.log.byAggregate
        (WorldId.text ⟨⟨0⟩⟩) 1).map Event.mark? = marks.map some ∧
        Succession (p.services ⟨⟨0⟩⟩ (interruptedAndEnded ⟨⟨0⟩⟩)) marks) ∧
      (p.services ⟨⟨0⟩⟩ (interruptedAndEnded ⟨⟨0⟩⟩)).map (·.ending) =
        [some .stopped, some .stopped] := by
  refine ⟨lifecycle_of_services Wiring.isUsable_standard none
    (by rfl : EventLog.empty.about ⟨⟨0⟩⟩ = []) (fun i hi => ?_) (by decide +kernel),
    by decide +kernel⟩
  obtain hi | hi := List.mem_append.mp hi
  · exact isOwn_interruptedOnce ⟨⟨0⟩⟩ i hi
  · simp only [List.mem_cons, List.not_mem_nil, or_false] at hi
    obtain rfl | rfl := hi
    · rfl
    · exact Wiring.isUsable_standard

end Manager

end WorldClock
