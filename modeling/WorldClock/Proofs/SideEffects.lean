import Mathlib.Data.List.Forall2
import WorldClock.Proofs.Manager.Courses

/-!
# What becomes of side effects

A ticker publishes, appends, hands events to projections and asks for the weather, and each of these
may fail or take too long. Two runs of one ticker in which they end differently, each in its own
way, are `Twins` at every moment: the same ticker in the same phase with the same registry and the
same calls behind it. Only what the collaborators keep tells them apart, and what depends on how
long they took: the log, the projections, what was told, and when the next tick is due.

So whatever a ticker does to its clock and asks of others, it does in both runs
(`Ticker.run_unaffected`).
-/

namespace WorldClock

/-! ### Acts -/

namespace Ticker

/-- What happens to a ticker, with the outcome of what it waits for. -/
inductive Act where
  | turn (m : Moment)
  | stop
  /-- Its publication or weather call ends. -/
  | reply (m : Moment) (r : Reply CallError)
  /-- Its append ends. The log has seen the event, or only its answer tells so. -/
  | append (m : Moment) (isSeen : Bool) (r : Reply LogError)
deriving DecidableEq

/-- The same thing at the same time of the wall clock, whatever comes of it. -/
inductive Act.Twin : Act → Act → Prop where
  | turn {m m' : Moment} (hwall : m'.wall = m.wall) : Twin (.turn m) (.turn m')
  | stop : Twin .stop .stop
  | reply {m m' : Moment} {r r' : Reply CallError} (hwall : m'.wall = m.wall) :
    Twin (.reply m r) (.reply m' r')
  | append {m m' : Moment} {isSeen isSeen' : Bool} {r r' : Reply LogError}
    (hwall : m'.wall = m.wall) : Twin (.append m isSeen r) (.append m' isSeen' r')

/-- Something that a ticker asks of others. -/
inductive Attempt where
  | call (c : Call)
  | append (e : Event)
deriving DecidableEq

/-- What a ticker has asked of others between two moments. -/
def attempts (t : Ticker) (s : Surroundings) (t' : Ticker) (s' : Surroundings) : List Attempt :=
  (s'.calls.take (s'.calls.length - s.calls.length)).reverse.map .call ++
    match t.filing?, t'.filing? with
    | none, some f => [.append f.event]
    | _, _ => []

/-- How a ticker that is over reports: the version of its last event, and what it owes. -/
def outcome? (t : Ticker) : Option (Count × Count) :=
  match t.phase with
  | .finished pending => some (t.version, pending)
  | _ => none

variable (w : Wiring)

/-- An append ends. No answer comes from a log that has not seen the event. -/
def endAppend (m : Moment) (isSeen : Bool) (r : Reply LogError) (t : Ticker) (s : Surroundings) :
    Ticker × Surroundings :=
  let (t, s) := if isSeen || decide (r = .answered) then t.file s else (t, s)
  t.conclude w m r s

def act (a : Act) (t : Ticker) (s : Surroundings) : Ticker × Surroundings :=
  match a with
  | .turn m => t.poll w m s
  | .stop => (t.requestStop, s)
  | .reply m r => t.answer w m r s
  | .append m isSeen r => t.endAppend w m isSeen r s

def runActs : List Act → Ticker → Surroundings → Ticker × Surroundings
  | [], t, s => (t, s)
  | a :: acts, t, s =>
    let (t, s) := t.act w a s
    t.runActs acts s

/-- Everything that a ticker asks of others in a run, in its order. -/
def asked : List Act → Ticker → Surroundings → List Attempt
  | [], _, _ => []
  | a :: acts, t, s =>
    let (t', s') := t.act w a s
    t.attempts s t' s' ++ t'.asked acts s'

/-- A ticker that waits for a tick gets its turn when the tick is due or the ticker has been
stopped. -/
def isReady (t : Ticker) : Act → Bool
  | .turn m =>
    match t.phase with
    | .waiting due => t.stop.isRaised || decide (due ≤ m.uptime)
    | _ => true
  | _ => true

def isReadyFor : List Act → Ticker → Surroundings → Bool
  | [], _, _ => true
  | a :: acts, t, s =>
    let (t', s') := t.act w a s
    t.isReady a && t'.isReadyFor acts s'

end Ticker

/-! ### Twins -/

/-- The same catch-up, apart from when it began. -/
structure CatchUpRun.Twin (run run' : CatchUpRun) : Prop where
  plan : run'.plan = run.plan
  applied : run'.applied = run.applied

inductive TickCause.Twin : TickCause → TickCause → Prop where
  | owed {run run' : CatchUpRun} (hrun : run.Twin run') : Twin (.owed run) (.owed run')
  | due (next next' : Nat) : Twin (.due next) (.due next')

/-- The same phase, apart from uptimes and from what the log says of an append. -/
inductive Phase.Twin : Phase → Phase → Prop where
  | starting (plan : Option CatchUpPlan) : Twin (.starting plan) (.starting plan)
  | replaying {run run' : CatchUpRun} (hrun : run.Twin run') :
    Twin (.replaying run) (.replaying run')
  | yielding {run run' : CatchUpRun} (hrun : run.Twin run') : Twin (.yielding run) (.yielding run')
  | publishing {cause cause' : TickCause} (hcause : cause.Twin cause') (world : World) :
    Twin (.publishing cause world) (.publishing cause' world)
  | recording {cause cause' : TickCause} (hcause : cause.Twin cause') (gameTime : Duration)
    {f f' : Filing} (hevent : f'.event = f.event) :
    Twin (.recording cause gameTime f) (.recording cause' gameTime f')
  | askingWeather {cause cause' : TickCause} (hcause : cause.Twin cause') (synthetic : Utc)
    (season : Season) :
    Twin (.askingWeather cause synthetic season) (.askingWeather cause' synthetic season)
  | replayed {run run' : CatchUpRun} (hrun : run.Twin run') : Twin (.replayed run) (.replayed run')
  | resuming {run run' : CatchUpRun} (hrun : run.Twin run') {f f' : Filing}
    (hevent : f'.event = f.event) : Twin (.resuming run f) (.resuming run' f')
  | waiting (due due' : Nat) : Twin (.waiting due) (.waiting due')
  | finished (pending : Count) : Twin (.finished pending) (.finished pending)
  | crashed (culprit : String) : Twin (.crashed culprit) (.crashed culprit)

namespace Ticker

/-- Two runs of one ticker that stand at the same point. -/
inductive Twins : Ticker × Surroundings → Ticker × Surroundings → Prop where
  | intro (t : Ticker) {phase phase' : Phase} (hphase : phase.Twin phase') {s s' : Surroundings}
    (hregistry : s'.registry = s.registry) (hcalls : s'.calls = s.calls) :
    Twins ({ t with phase := phase }, s) ({ t with phase := phase' }, s')

end Ticker

theorem CatchUpRun.Twin.pending_eq {run run' : CatchUpRun} (h : run.Twin run') :
    run'.pending = run.pending := by
  rw [pending, pending, h.plan, h.applied]

theorem Phase.twin_refl (phase : Phase) : phase.Twin phase := by
  have hrun (run : CatchUpRun) : run.Twin run := ⟨rfl, rfl⟩
  have hcause (cause : TickCause) : cause.Twin cause := by
    cases cause with
    | owed run => exact .owed (hrun run)
    | due next => exact .due next next
  cases phase with
  | starting plan => exact .starting plan
  | replaying run => exact .replaying (hrun run)
  | yielding run => exact .yielding (hrun run)
  | publishing cause world => exact .publishing (hcause cause) world
  | recording cause gameTime f => exact .recording (hcause cause) gameTime rfl
  | askingWeather cause synthetic season => exact .askingWeather (hcause cause) synthetic season
  | replayed run => exact .replayed (hrun run)
  | resuming run f => exact .resuming (hrun run) rfl
  | waiting due => exact .waiting due due
  | finished pending => exact .finished pending
  | crashed culprit => exact .crashed culprit

namespace Ticker

variable {w : Wiring} {m m' : Moment} {t : Ticker} {phase phase' : Phase} {s s' : Surroundings}

theorem twin_restAfter {cause cause' : TickCause} (h : cause.Twin cause') :
    (restAfter w cause).Twin (restAfter w cause') := by
  cases h with
  | due next next' => exact .waiting next next'
  | @owed run run' hrun =>
    have hnext : CatchUpRun.Twin { run with applied := run.applied.next }
        { run' with applied := run'.applied.next } := ⟨hrun.plan, by rw [hrun.applied]⟩
    simp only [restAfter, hrun.applied] at hnext ⊢
    split
    · exact .yielding hnext
    · exact .replaying hnext

theorem twins_record (hwall : m'.wall = m.wall) {cause cause' : TickCause}
    (hcause : cause.Twin cause') (hregistry : s'.registry = s.registry)
    (hcalls : s'.calls = s.calls) (world : World) :
    Twins ({ t with phase := phase }.record m cause world, s)
      ({ t with phase := phase' }.record m' cause' world, s') := by
  have hcatchUp : cause'.isCatchUp = cause.isCatchUp := by
    cases hcause <;> rfl
  refine Twins.intro { t with version := t.version.next } (.recording hcause world.gameTime ?_)
    hregistry hcalls
  simp only [Filing.start, nextEvent, hwall, hcatchUp]

/-- A tick touches the registry and publishes the same way, whatever it is made for. -/
theorem twins_tick (hwall : m'.wall = m.wall) {cause cause' : TickCause}
    (hcause : cause.Twin cause') (hregistry : s'.registry = s.registry)
    (hcalls : s'.calls = s.calls) :
    Twins ({ t with phase := phase }.tick w m cause s)
      ({ t with phase := phase' }.tick w m' cause' s') := by
  simp only [tick, hwall, hregistry]
  split
  · exact Twins.intro t (twin_restAfter hcause) hregistry hcalls
  · next world registry hupdate =>
    by_cases hpublishes : w.publishes = true
    · simp only [hpublishes, if_true]
      refine Twins.intro t (.publishing hcause world) rfl ?_
      simp only [Surroundings.call, hcalls]
    · simp only [hpublishes, if_false, Bool.false_eq_true]
      refine twins_record hwall hcause ?_ ?_ world
      · rfl
      · exact hcalls

theorem twins_askWeather {cause cause' : TickCause} (hcause : cause.Twin cause')
    (hregistry : s'.registry = s.registry) (hcalls : s'.calls = s.calls) (gameTime : Duration) :
    Twins ({ t with phase := phase }.askWeather w cause gameTime s)
      ({ t with phase := phase' }.askWeather w cause' gameTime s') := by
  simp only [askWeather, hregistry]
  split
  · exact Twins.intro t (twin_restAfter hcause) hregistry hcalls
  · split <;>
      exact Twins.intro { t with weatherSyncedAt := gameTime } (.askingWeather hcause _ _)
        (by first | rfl | exact hregistry)
        (by simp only [Surroundings.call, Surroundings.tell, hcalls])

/-- The end of a catch-up, complete or not, leaves the same mark. -/
theorem twins_endCatchUp (hwall : m'.wall = m.wall) {run run' : CatchUpRun}
    (hrun : run.Twin run') (hregistry : s'.registry = s.registry) (hcalls : s'.calls = s.calls) :
    Twins ({ t with phase := phase }.endCatchUp m run s)
      ({ t with phase := phase' }.endCatchUp m' run' s') := by
  have hpending := hrun.pending_eq
  have hplan := hrun.plan
  simp only [endCatchUp, hpending, hregistry]
  split
  · exact Twins.intro t (.finished run.pending) hregistry hcalls
  · split <;>
      exact Twins.intro { t with version := t.version.next }
        (.resuming hrun (by simp only [Filing.start, nextEvent, hwall, hplan]))
        (by first | rfl | exact hregistry) hcalls

theorem twins_poll (hwall : m'.wall = m.wall) (hphase : phase.Twin phase')
    (hregistry : s'.registry = s.registry) (hcalls : s'.calls = s.calls)
    (hready : isReady { t with phase := phase } (.turn m) = true)
    (hready' : isReady { t with phase := phase' } (.turn m') = true) :
    Twins ({ t with phase := phase }.poll w m s) ({ t with phase := phase' }.poll w m' s') := by
  have hstay := Twins.intro t hphase hregistry hcalls
  cases hphase with
  | starting plan =>
    cases plan with
    | none => exact Twins.intro t (.waiting _ _) hregistry hcalls
    | some plan =>
      have hrun : CatchUpRun.Twin ⟨plan, 0, m.uptime⟩ ⟨plan, 0, m'.uptime⟩ := ⟨rfl, rfl⟩
      exact Twins.intro t (.replaying hrun) hregistry hcalls
  | replaying hrun =>
    simp only [poll, hrun.plan, hrun.applied]
    split
    · exact twins_tick hwall (.owed hrun) hregistry hcalls
    · exact Twins.intro t (.replayed hrun) hregistry hcalls
  | yielding hrun => exact Twins.intro t (.replaying hrun) hregistry hcalls
  | replayed hrun => exact twins_endCatchUp hwall hrun hregistry hcalls
  | waiting due due' =>
    -- Both were woken by the stop, or each of them by its tick.
    simp only [isReady, Bool.or_eq_true, decide_eq_true_eq] at hready hready'
    simp only [poll]
    split
    · exact Twins.intro t (.finished 0) hregistry hcalls
    · next hlowered =>
      rw [if_pos (hready.resolve_left hlowered), if_pos (hready'.resolve_left hlowered)]
      exact twins_tick hwall (.due _ _) hregistry hcalls
  | _ => exact hstay

/-- A ticker goes on in the same way however its publication or its weather call ends. -/
theorem twins_answer (hwall : m'.wall = m.wall) (hphase : phase.Twin phase')
    (hregistry : s'.registry = s.registry) (hcalls : s'.calls = s.calls)
    (r r' : Reply CallError) :
    Twins ({ t with phase := phase }.answer w m r s)
      ({ t with phase := phase' }.answer w m' r' s') := by
  have hstay := Twins.intro t hphase hregistry hcalls
  cases hphase with
  | publishing hcause world =>
    refine twins_record hwall hcause ?_ ?_ world
    · cases r <;> cases r' <;> exact hregistry
    · cases r <;> cases r' <;> exact hcalls
  | askingWeather hcause synthetic season =>
    refine Twins.intro t (twin_restAfter hcause) ?_ ?_
    · cases r <;> cases r' <;> exact hregistry
    · cases r <;> cases r' <;> exact hcalls
  | _ => exact hstay

/-! ### Appends -/

/-- An append and its surroundings, once the log has seen the event if it does. -/
def seen (isSeen : Bool) (f : Filing) (s : Surroundings) : Filing × Surroundings :=
  if isSeen then s.file f else (f, s)

theorem seen_leaves (isSeen : Bool) (f : Filing) (s : Surroundings) :
    (seen isSeen f s).2.registry = s.registry ∧ (seen isSeen f s).2.calls = s.calls := by
  rw [seen]
  split <;> exact ⟨rfl, rfl⟩

theorem verdict_seen (f : Filing) (s : Surroundings) : (seen true f s).1.verdict ≠ none := by
  simp only [seen, if_true, Surroundings.file, Filing.file]
  split
  · next hverdict => simp [hverdict]
  · split <;> simp

/-- Whoever waits for an append learns how it ends, as no answer comes from a log that has not seen
the event. -/
theorem exists_outcome (f : Filing) (isSeen : Bool) (r : Reply LogError) (s : Surroundings) :
    ∃ r', (seen (isSeen || decide (r = .answered)) f s).1.outcome? r = some r' := by
  cases r with
  | failed error => exact ⟨.failed error, rfl⟩
  | timedOut => exact ⟨.timedOut, rfl⟩
  | answered =>
    have hseen : (isSeen || decide ((.answered : Reply LogError) = .answered)) = true := by simp
    obtain ⟨verdict, hverdict⟩ := Option.ne_none_iff_exists'.mp (verdict_seen f s)
    rw [hseen]
    match verdict with
    | .ok () => exact ⟨.answered, by simp only [Filing.outcome?, hverdict]⟩
    | .error error => exact ⟨.failed error, by simp only [Filing.outcome?, hverdict]⟩

/-- Whoever waits for an append learns an outcome, and nothing but the log has changed by then. -/
theorem endAppend_eq (phaseOf : Filing → Phase) {t : Ticker}
    (hfile : ∀ f s, file { t with phase := phaseOf f } s =
      ({ t with phase := phaseOf (s.file f).1 }, (s.file f).2))
    (m : Moment) (f : Filing) (isSeen : Bool) (r : Reply LogError) (s : Surroundings) :
    ∃ (f' : Filing) (r' : Reply LogError) (s' : Surroundings), f'.outcome? r = some r' ∧
      s'.registry = s.registry ∧ s'.calls = s.calls ∧
      s'.log = (seen (isSeen || decide (r = .answered)) f s).2.log ∧
      endAppend w m isSeen r { t with phase := phaseOf f } s =
        conclude w m r { t with phase := phaseOf f' } s' := by
  obtain ⟨r', houtcome⟩ := exists_outcome f isSeen r s
  obtain ⟨hregistry, hcalls⟩ := seen_leaves (isSeen || decide (r = .answered)) f s
  refine ⟨_, r', _, houtcome, hregistry, hcalls, rfl, ?_⟩
  rw [endAppend, seen]
  cases isSeen || decide (r = .answered) with
  | true => simp only [if_true, hfile]
  | false => rfl

/-- However the append of a tick ends, the ticker goes on to the weather. -/
theorem endAppend_recording (m : Moment) {cause : TickCause} {gameTime : Duration} (f : Filing)
    (isSeen : Bool) (r : Reply LogError) (t : Ticker) (s : Surroundings) :
    ∃ (phase : Phase) (s' : Surroundings), s'.registry = s.registry ∧ s'.calls = s.calls ∧
      s'.log = (seen (isSeen || decide (r = .answered)) f s).2.log ∧
      endAppend w m isSeen r { t with phase := .recording cause gameTime f } s =
        { t with phase := phase }.askWeather w cause gameTime s' := by
  obtain ⟨f', r', s', houtcome, hregistry, hcalls, hlog, heq⟩ :=
    endAppend_eq (w := w) (t := t) (.recording cause gameTime) (fun _ _ => rfl) m f isSeen r s
  refine ⟨.recording cause gameTime f', settle w .ticked f'.event r'
    { t with phase := .recording cause gameTime f' } s', ?_, ?_, ?_, ?_⟩
  · rw [settle_registry, hregistry]
  · rw [settle_calls, hcalls]
  · rw [settle_log, hlog]
  · rw [heq]
    simp only [conclude, houtcome]

/-- However the append of a resumption ends, the ticker waits for its first tick. -/
theorem endAppend_resuming (m : Moment) {run : CatchUpRun} (f : Filing) (isSeen : Bool)
    (r : Reply LogError) (t : Ticker) (s : Surroundings) :
    ∃ (due : Nat) (s' : Surroundings), s'.registry = s.registry ∧ s'.calls = s.calls ∧
      endAppend w m isSeen r { t with phase := .resuming run f } s =
        ({ t with phase := .waiting due }, s') := by
  obtain ⟨f', r', s', houtcome, hregistry, hcalls, -, heq⟩ :=
    endAppend_eq (w := w) (t := t) (.resuming run) (fun _ _ => rfl) m f isSeen r s
  refine ⟨firstDue w m, (settle w .resumed f'.event r' { t with phase := .resuming run f' }
    s').tell t.world (.caughtUp run.applied ((m.uptime - run.startedAt) / nanosPerMilli)),
    ?_, ?_, ?_⟩
  · exact (settle_registry .resumed f'.event r').trans hregistry
  · exact (settle_calls .resumed f'.event r').trans hcalls
  · rw [heq]
    simp only [conclude, houtcome]

theorem endAppend_of_idle (m : Moment) {t : Ticker} (hidle : t.filing? = none) (isSeen : Bool)
    (r : Reply LogError) (s : Surroundings) : t.endAppend w m isSeen r s = (t, s) := by
  have hfile : t.file s = (t, s) := by
    rw [file]
    split <;> simp_all [filing?]
  have hconclude : t.conclude w m r s = (t, s) := by
    rw [conclude]
    split <;> simp_all [filing?]
  rw [endAppend, hfile, ite_self]
  exact hconclude

/-- A ticker goes on in the same way however its append ends. -/
theorem twins_endAppend (hphase : phase.Twin phase') (hregistry : s'.registry = s.registry)
    (hcalls : s'.calls = s.calls) (m m' : Moment) (isSeen isSeen' : Bool)
    (r r' : Reply LogError) :
    Twins ({ t with phase := phase }.endAppend w m isSeen r s)
      ({ t with phase := phase' }.endAppend w m' isSeen' r' s') := by
  have hstay := Twins.intro t hphase hregistry hcalls
  cases hphase with
  | @recording cause cause' hcause gameTime f f' hevent =>
    obtain ⟨after, s₁, hregistry₁, hcalls₁, -, heq⟩ :=
      endAppend_recording (w := w) m f isSeen r t s
    obtain ⟨after', s₂, hregistry₂, hcalls₂, -, heq'⟩ :=
      endAppend_recording (w := w) m' f' isSeen' r' t s'
    rw [heq, heq']
    exact twins_askWeather hcause (by rw [hregistry₁, hregistry₂, hregistry])
      (by rw [hcalls₁, hcalls₂, hcalls]) gameTime
  | @resuming run run' hrun f f' hevent =>
    obtain ⟨due, s₁, hregistry₁, hcalls₁, heq⟩ := endAppend_resuming (w := w) m f isSeen r t s
    obtain ⟨due', s₂, hregistry₂, hcalls₂, heq'⟩ :=
      endAppend_resuming (w := w) m' f' isSeen' r' t s'
    rw [heq, heq']
    exact Twins.intro t (.waiting due due') (by rw [hregistry₁, hregistry₂, hregistry])
      (by rw [hcalls₁, hcalls₂, hcalls])
  | _ =>
    rw [endAppend_of_idle m rfl, endAppend_of_idle m' rfl]
    exact hstay

/-! ### Runs -/

/-- Whatever happens to both runs at once leaves them at the same point. -/
theorem twins_act {a a' : Act} (ha : a.Twin a') {x y : Ticker × Surroundings} (h : Twins x y)
    (hready : x.1.isReady a = true) (hready' : y.1.isReady a' = true) :
    Twins (x.1.act w a x.2) (y.1.act w a' y.2) := by
  cases h with
  | intro t hphase hregistry hcalls =>
    cases ha with
    | turn hwall => exact twins_poll hwall hphase hregistry hcalls hready hready'
    | stop => exact Twins.intro { t with stop := t.stop.raise } hphase hregistry hcalls
    | reply hwall => exact twins_answer hwall hphase hregistry hcalls _ _
    | append hwall => exact twins_endAppend hphase hregistry hcalls _ _ _ _ _ _

theorem Twins.filing?_map {x y : Ticker × Surroundings} (h : Twins x y) :
    y.1.filing?.map (·.event) = x.1.filing?.map (·.event) := by
  cases h with
  | intro t hphase hregistry hcalls =>
    cases hphase with
    | recording hcause gameTime hevent => exact congrArg some hevent
    | resuming hrun hevent => exact congrArg some hevent
    | _ => rfl

/-- What a ticker has done to its clock, and how it reports, is the same in both runs. -/
theorem Twins.clock_eq {x y : Ticker × Surroundings} (h : Twins x y) :
    y.2.registry = x.2.registry ∧ y.2.calls = x.2.calls ∧ y.1.version = x.1.version ∧
      y.1.weatherSyncedAt = x.1.weatherSyncedAt ∧ y.1.outcome? = x.1.outcome? := by
  cases h with
  | intro t hphase hregistry hcalls =>
    refine ⟨hregistry, hcalls, rfl, rfl, ?_⟩
    cases hphase <;> rfl

/-- An attempt of an append, by the events that a ticker waits for before and after. -/
def newAppend : Option Event → Option Event → List Attempt
  | none, some e => [.append e]
  | _, _ => []

theorem attempts_eq (t t' : Ticker) (s s' : Surroundings) : t.attempts s t' s' =
    (s'.calls.take (s'.calls.length - s.calls.length)).reverse.map .call ++
      newAppend (t.filing?.map (·.event)) (t'.filing?.map (·.event)) := by
  rw [attempts]
  cases t.filing? <;> cases t'.filing? <;> rfl

/-- Between two such points both runs ask the same of others. -/
theorem Twins.attempts_eq {x x' y y' : Ticker × Surroundings} (h : Twins x y) (h' : Twins x' y') :
    y.1.attempts y.2 y'.1 y'.2 = x.1.attempts x.2 x'.1 x'.2 := by
  obtain ⟨-, hcalls, -⟩ := h.clock_eq
  obtain ⟨-, hcalls', -⟩ := h'.clock_eq
  rw [Ticker.attempts_eq, Ticker.attempts_eq, h.filing?_map, h'.filing?_map, hcalls, hcalls']

theorem twins_runActs {acts acts' : List Act} (hacts : List.Forall₂ Act.Twin acts acts')
    {x y : Ticker × Surroundings} (h : Twins x y)
    (hready : x.1.isReadyFor w acts x.2 = true) (hready' : y.1.isReadyFor w acts' y.2 = true) :
    Twins (x.1.runActs w acts x.2) (y.1.runActs w acts' y.2) ∧
      y.1.asked w acts' y.2 = x.1.asked w acts x.2 := by
  induction hacts generalizing x y with
  | nil => exact ⟨h, rfl⟩
  | cons ha hacts ih =>
    simp only [isReadyFor, Bool.and_eq_true] at hready hready'
    have hnext := twins_act (w := w) ha h hready.1 hready'.1
    obtain ⟨hend, hasked⟩ := ih hnext hready.2 hready'.2
    refine ⟨hend, ?_⟩
    simp only [asked]
    rw [h.attempts_eq hnext, hasked]

/-- Two runs of one ticker, with the same readings of the wall clock, in which publications,
appends, projections and weather calls end in whatever way they like, each in its own: they leave
the registry and the ticker's version, weather mark and report the same, and ask the same of others
in the same order. As the runs may end anywhere, this holds after each of their acts. -/
theorem run_unaffected {acts acts' : List Act} (hacts : List.Forall₂ Act.Twin acts acts')
    (t : Ticker) {s s' : Surroundings} (hregistry : s'.registry = s.registry)
    (hcalls : s'.calls = s.calls) (hready : t.isReadyFor w acts s = true)
    (hready' : t.isReadyFor w acts' s' = true) :
    (t.runActs w acts' s').2.registry = (t.runActs w acts s).2.registry ∧
      (t.runActs w acts' s').1.version = (t.runActs w acts s).1.version ∧
      (t.runActs w acts' s').1.weatherSyncedAt = (t.runActs w acts s).1.weatherSyncedAt ∧
      (t.runActs w acts' s').1.outcome? = (t.runActs w acts s).1.outcome? ∧
      t.asked w acts' s' = t.asked w acts s := by
  have hstart : Twins (t, s) (t, s') := Twins.intro t (Phase.twin_refl t.phase) hregistry hcalls
  obtain ⟨hend, hasked⟩ := twins_runActs hacts hstart hready hready'
  obtain ⟨hregistry, -, hversion, hweather, houtcome⟩ := hend.clock_eq
  exact ⟨hregistry, hversion, hweather, houtcome, hasked⟩

/-- A catch-up of two ticks, a steady one and a stop, where all calls and all appends end in one way
and everything takes so many times as long. -/
def outing (call : Reply CallError) (isSeen : Bool) (append : Reply LogError) (slowness : Nat) :
    List Act :=
  let moment (millis : Nat) : Moment :=
    ⟨(Manager.momentAt millis).wall, slowness * millis * nanosPerMilli⟩
  let tick (millis : Nat) : List Act :=
    [.turn (moment millis), .reply (moment millis) call, .append (moment millis) isSeen append,
      .reply (moment millis) call]
  [.turn (moment 0)] ++ tick 10 ++ tick 20 ++
    [.turn (moment 30), .turn (moment 40), .append (moment 40) isSeen append] ++ tick 200 ++
    [.stop, .turn (moment 210)]

theorem twin_outing (call call' : Reply CallError) (isSeen isSeen' : Bool)
    (append append' : Reply LogError) (slowness slowness' : Nat) :
    List.Forall₂ Act.Twin (outing call isSeen append slowness)
      (outing call' isSeen' append' slowness') := by
  simp only [outing, List.cons_append, List.nil_append, List.forall₂_cons, Act.Twin.stop,
    Act.Twin.turn, Act.Twin.reply, Act.Twin.append, List.Forall₂.nil, and_self]

/-- A ticker with half an hour of simulated time in each tick. -/
def halfHourly : Ticker where
  world := ⟨⟨0⟩⟩
  dilation := .one
  delta := Duration.ofSeconds 1800
  version := 3
  weatherSyncedAt := Duration.zero
  stop := StopSignal.lowered
  phase := .starting (some ⟨Duration.ofMillis 200, 2⟩)

def catchingUpAlone : Surroundings :=
  let world := World.starting ⟨⟨0⟩⟩ "world" .one (Manager.momentAt 0).wall
  { Surroundings.start .empty none with
    registry := ⟨WorldTable.empty.set ⟨⟨0⟩⟩ { world with status := .catchingUp }⟩ }

theorem run_unaffected_of_outing :
    let w : Wiring := { Wiring.standard with publishes := true, asksWeather := true }
    let smooth := outing .answered true .answered 1
    let rough := outing .timedOut false (.failed (.backend "gone")) 7
    List.Forall₂ Act.Twin smooth rough ∧
      halfHourly.isReadyFor w smooth catchingUpAlone = true ∧
      halfHourly.isReadyFor w rough catchingUpAlone = true ∧
      (halfHourly.runActs w rough catchingUpAlone).2.registry =
        (halfHourly.runActs w smooth catchingUpAlone).2.registry ∧
      (halfHourly.runActs w rough catchingUpAlone).1.outcome? =
        (halfHourly.runActs w smooth catchingUpAlone).1.outcome? ∧
      halfHourly.asked w rough catchingUpAlone = halfHourly.asked w smooth catchingUpAlone := by
  intro w smooth rough
  have hacts : List.Forall₂ Act.Twin smooth rough := twin_outing _ _ _ _ _ _ _ _
  have hready : halfHourly.isReadyFor w smooth catchingUpAlone = true := by decide +kernel
  have hready' : halfHourly.isReadyFor w rough catchingUpAlone = true := by decide +kernel
  obtain ⟨hregistry, -, -, houtcome, hasked⟩ :=
    run_unaffected hacts halfHourly (s := catchingUpAlone) rfl rfl hready hready'
  exact ⟨hacts, hready, hready', hregistry, houtcome, hasked⟩

end Ticker

end WorldClock
