import WorldClock.Proofs.Manager.Interference
import WorldClock.Proofs.SideEffects
import WorldClock.Proofs.Stops

/-!
# A catch-up is so many steady ticks

A catch-up makes its ticks one after the other, looks at the stop signal in between, and counts for
itself. Beside it we let a steady ticker run that begins a tick whenever the catch-up begins one, at
the same reading of the wall clock, and whose publications, appends and weather calls end in the
same way (`Ticker.steadyActs`). The two stand `Beside` each other at every moment: same registry,
same calls, same log but for the flag of a catch-up in the events. When the catch-up returns, the
steady ticker has made as many whole ticks as the catch-up has counted
(`Ticker.replay_eq_steady_ticks`).
-/

namespace WorldClock

/-- The same tick, told as one of a catch-up and as a steady one. -/
inductive Event.Recast : Event → Event → Prop where
  | intro (world : WorldId) (version : Count) (now : Instant) (d : TickedDetails) :
    Recast (Event.ofWorld world version now (.ticked { d with catchUp := true }))
      (Event.ofWorld world version now (.ticked { d with catchUp := false }))

/-- Two logs with the given events at first, and then the same ticks in each, told as those of a
catch-up and as steady ones. -/
def EventLog.Recast (base : List Event) (log log' : EventLog) : Prop :=
  ∃ new new', log.newestFirst = new ++ base ∧ log'.newestFirst = new' ++ base ∧
    List.Forall₂ Event.Recast new new'

theorem Event.Recast.header_eq {e e' : Event} (h : e.Recast e') :
    e'.version = e.version ∧ e'.aggregateId = e.aggregateId ∧ e'.fault? = e.fault? := by
  cases h
  exact ⟨rfl, rfl, rfl⟩

namespace EventLog

variable {base : List Event} {log log' : EventLog} {e e' : Event}

theorem Recast.hasVersion_eq (h : Recast base log log') (aggregateId : String) (version : Count) :
    log'.hasVersion aggregateId version = log.hasVersion aggregateId version := by
  obtain ⟨new, new', hlog, hlog', hnew⟩ := h
  rw [hasVersion, hasVersion, hlog, hlog', List.any_append, List.any_append]
  congr 1
  clear hlog hlog'
  induction hnew with
  | nil => rfl
  | cons he _ ih =>
    obtain ⟨hversion, haggregate, -⟩ := he.header_eq
    rw [List.any_cons, List.any_cons, hversion, haggregate, ih]

theorem Recast.append (h : Recast base log log') (he : e.Recast e') :
    (∃ after after', log.append e = .ok after ∧ log'.append e' = .ok after' ∧
        Recast base after after') ∨
      ∃ error, log.append e = .error error ∧ log'.append e' = .error error := by
  obtain ⟨hversion, haggregate, hfault⟩ := he.header_eq
  have hhas := h.hasVersion_eq e.aggregateId e.version
  rw [EventLog.append, EventLog.append, hfault, hversion, haggregate, hhas]
  cases e.fault? with
  | some fault => exact .inr ⟨_, rfl, rfl⟩
  | none =>
    simp only
    split
    · exact .inr ⟨_, rfl, rfl⟩
    · obtain ⟨new, new', hlog, hlog', hnew⟩ := h
      exact .inl ⟨_, _, rfl, rfl, e :: new, e' :: new', congrArg (e :: ·) hlog,
        congrArg (e' :: ·) hlog', .cons he hnew⟩

theorem Recast.file (h : Recast base log log') (he : e.Recast e') :
    Recast base ((Filing.start e).file log).2 ((Filing.start e').file log').2 := by
  obtain ⟨after, after', happend, happend', hafter⟩ | ⟨error, happend, happend'⟩ := h.append he
  · simp only [Filing.file, Filing.start, happend, happend']
    exact hafter
  · simp only [Filing.file, Filing.start, happend, happend']
    exact h

end EventLog

namespace Ticker

def Act.isTurn : Act → Bool
  | .turn _ => true
  | _ => false

/-- The ticker at the beginning of a catch-up. -/
def replaying (plan : CatchUpPlan) (startedAt : Nat) (t : Ticker) : Ticker :=
  { t with phase := .replaying ⟨plan, 0, startedAt⟩ }

/-- The ticker that is not stopped and waits for its next tick. -/
def steadied (due : Nat) (t : Ticker) : Ticker :=
  { t with phase := .waiting due, stop := StopSignal.lowered }

/-- How a catch-up returns, if it has done so. -/
def returned? (t : Ticker) : Option CatchUpRun :=
  match t.phase with
  | .replayed run => some run
  | _ => none

/-- A catch-up on its own: once it has returned, nothing more happens. -/
def replayAct (w : Wiring) (a : Act) (t : Ticker) (s : Surroundings) : Ticker × Surroundings :=
  match t.phase with
  | .replayed _ => (t, s)
  | _ => t.act w a s

def replay (w : Wiring) : List Act → Ticker → Surroundings → Ticker × Surroundings
  | [], t, s => (t, s)
  | a :: acts, t, s =>
    let (t, s) := t.replayAct w a s
    t.replay w acts s

/-- What happens to a steady ticker beside a catch-up. Its next tick is due when the catch-up begins
one; it is given no other turn, and nobody stops it. -/
def steadyAct (w : Wiring) (due : Nat) (t : Ticker) : Act → List Act
  | .turn m => if (t.cause? w m).isSome then [.turn ⟨m.wall, due⟩] else []
  | .stop => []
  | .reply m r => [.reply m r]
  | .append m isSeen r => [.append m isSeen r]

/-- When the next tick of a steady ticker beside a catch-up is due. -/
def dueAfter (w : Wiring) (due : Nat) (t : Ticker) : Act → Nat
  | .turn m => if (t.cause? w m).isSome then due + w.clock.tickInterval.nanos else due
  | _ => due

def steadyActs (w : Wiring) (due : Nat) : List Act → Ticker → Surroundings → List Act
  | [], _, _ => []
  | a :: acts, t, s =>
    let (t', s') := t.replayAct w a s
    t.steadyAct w due a ++ t'.steadyActs w (t.dueAfter w due a) acts s'

end Ticker

/-! ### Side by side -/

/-- A tick of a catch-up, and a steady one beside it; a number of ticks have begun. -/
inductive TickCause.Beside (plan : CatchUpPlan) (due : Nat) : Nat → TickCause → TickCause → Prop
  where
  | intro {run : CatchUpRun} {n : Nat} (hplan : run.plan = plan) (happlied : run.applied.toNat = n)
    (hmore : n < plan.units.toNat) : Beside plan due (n + 1) (.owed run) (.due due)

inductive Phase.Beside (plan : CatchUpPlan) (due : Nat) : Nat → Phase → Phase → Prop where
  | replaying {run : CatchUpRun} {n : Nat} (hplan : run.plan = plan)
    (happlied : run.applied.toNat = n) (hle : n ≤ plan.units.toNat) :
    Beside plan due n (.replaying run) (.waiting due)
  | yielding {run : CatchUpRun} {n : Nat} (hplan : run.plan = plan)
    (happlied : run.applied.toNat = n) (hle : n ≤ plan.units.toNat) :
    Beside plan due n (.yielding run) (.waiting due)
  | replayed {run : CatchUpRun} {n : Nat} (hplan : run.plan = plan)
    (happlied : run.applied.toNat = n) (hle : n ≤ plan.units.toNat) :
    Beside plan due n (.replayed run) (.waiting due)
  | publishing {n : Nat} {cause cause' : TickCause} (hcause : cause.Beside plan due n cause')
    (world : World) : Beside plan due n (.publishing cause world) (.publishing cause' world)
  | recording {n : Nat} {cause cause' : TickCause} (hcause : cause.Beside plan due n cause')
    (gameTime : Duration) {e e' : Event} (hevent : e.Recast e') :
    Beside plan due n (.recording cause gameTime (Filing.start e))
      (.recording cause' gameTime (Filing.start e'))
  | askingWeather {n : Nat} {cause cause' : TickCause} (hcause : cause.Beside plan due n cause')
    (synthetic : Utc) (season : Season) :
    Beside plan due n (.askingWeather cause synthetic season)
      (.askingWeather cause' synthetic season)

/-- The ticks that a catch-up has made, without the one under way. -/
def Phase.applied : Phase → Nat
  | .replaying run | .yielding run | .replayed run => run.applied.toNat
  | .publishing (.owed run) _ | .recording (.owed run) _ _ | .askingWeather (.owed run) _ _ =>
    run.applied.toNat
  | _ => 0

theorem Phase.Beside.eq_applied_add {plan : CatchUpPlan} {due n : Nat} {phase phase' : Phase}
    (h : phase.Beside plan due n phase') : n = phase.applied + phase.isTicking.toNat := by
  cases h with
  | replaying _ happlied _ | yielding _ happlied _ | replayed _ happlied _ => exact happlied.symm
  | publishing hcause _ | askingWeather hcause _ _ | recording hcause _ _ =>
    obtain ⟨-, happlied, -⟩ := hcause
    exact congrArg (· + 1) happlied.symm

namespace Ticker

/-- A catch-up and a steady ticker beside it. -/
inductive Beside (plan : CatchUpPlan) (base : List Event) (due n : Nat) :
    Ticker × Surroundings → Ticker × Surroundings → Prop where
  | intro (t : Ticker) {phase phase' : Phase} (hphase : phase.Beside plan due n phase')
    {s s' : Surroundings} (hregistry : s'.registry = s.registry) (hcalls : s'.calls = s.calls)
    (hlog : EventLog.Recast base s.log s'.log) :
    Beside plan base due n ({ t with phase := phase }, s)
      ({ t with phase := phase', stop := StopSignal.lowered }, s')

theorem returned?_eq_some {t : Ticker} {run : CatchUpRun} :
    t.returned? = some run ↔ t.phase = .replayed run := by
  rw [returned?]
  cases t.phase <;> simp

variable {w : Wiring} {m m' : Moment} {t : Ticker} {phase phase' : Phase} {s s' : Surroundings}
  {plan : CatchUpPlan} {base : List Event} {due n : Nat} {cause cause' : TickCause}

theorem beside_restAfter (h : cause.Beside plan due n cause') :
    (restAfter w cause).Beside plan due n (restAfter w cause') := by
  obtain ⟨hplan, happlied, hmore⟩ := h
  rename_i run n
  have hnext : run.applied.next.toNat = n + 1 := by
    have hgreatest := plan.units.toNat_le_greatest
    rw [Count.toNat_next, happlied]
    omega
  simp only [restAfter]
  split
  · exact .yielding hplan hnext hmore
  · exact .replaying hplan hnext hmore

theorem beside_record (hwall : m'.wall = m.wall) (hcause : cause.Beside plan due n cause')
    (hregistry : s'.registry = s.registry) (hcalls : s'.calls = s.calls)
    (hlog : EventLog.Recast base s.log s'.log) (world : World) :
    Beside plan base due n ({ t with phase := phase }.record m cause world, s)
      ({ t with phase := phase', stop := StopSignal.lowered }.record m' cause' world, s') := by
  refine Beside.intro { t with version := t.version.next } (.recording hcause world.gameTime ?_)
    hregistry hcalls hlog
  obtain ⟨-, -, -⟩ := hcause
  simp only [nextEvent, hwall]
  exact .intro t.world t.version.next m.wall
    ⟨world.tickCount, world.gameTime.toNanoCount, t.delta.toNanoCount, true⟩

theorem beside_tick (hwall : m'.wall = m.wall) (hcause : cause.Beside plan due n cause')
    (hregistry : s'.registry = s.registry) (hcalls : s'.calls = s.calls)
    (hlog : EventLog.Recast base s.log s'.log) :
    Beside plan base due n ({ t with phase := phase }.tick w m cause s)
      ({ t with phase := phase', stop := StopSignal.lowered }.tick w m' cause' s') := by
  simp only [tick, hwall, hregistry]
  split
  · exact Beside.intro t (beside_restAfter hcause) hregistry hcalls hlog
  · next world registry hupdate =>
    by_cases hpublishes : w.publishes = true
    · simp only [hpublishes, if_true]
      refine Beside.intro t (.publishing hcause world) rfl ?_ hlog
      simp only [Surroundings.call, hcalls]
    · simp only [hpublishes, if_false, Bool.false_eq_true]
      refine beside_record hwall hcause ?_ ?_ ?_ world
      · rfl
      · exact hcalls
      · exact hlog

theorem beside_askWeather (hcause : cause.Beside plan due n cause')
    (hregistry : s'.registry = s.registry) (hcalls : s'.calls = s.calls)
    (hlog : EventLog.Recast base s.log s'.log) (gameTime : Duration) :
    Beside plan base due n ({ t with phase := phase }.askWeather w cause gameTime s)
      ({ t with phase := phase', stop := StopSignal.lowered }.askWeather w cause' gameTime s') := by
  simp only [askWeather, hregistry]
  split
  · exact Beside.intro t (beside_restAfter hcause) hregistry hcalls hlog
  · have hnext := Phase.Beside.askingWeather hcause (Utc.synthetic w.clock.epoch gameTime)
      (w.calendar.season gameTime)
    split
    · refine Beside.intro { t with weatherSyncedAt := gameTime } hnext rfl ?_ hlog
      simp only [Surroundings.call, hcalls]
    · refine Beside.intro { t with weatherSyncedAt := gameTime } hnext hregistry ?_ hlog
      simp only [Surroundings.call, Surroundings.tell, hcalls]

/-- The steady ticker begins a tick when the catch-up does. -/
theorem beside_turn {x y : Ticker × Surroundings} (h : Beside plan base due n x y) (m : Moment) :
    Beside plan base (x.1.dueAfter w due (.turn m)) (n + (x.1.cause? w m).isSome.toNat)
      (x.1.replayAct w (.turn m) x.2) (y.1.runActs w (x.1.steadyAct w due (.turn m)) y.2) := by
  obtain ⟨t, hphase, hregistry, hcalls, hlog⟩ := h
  have hstay := Beside.intro t hphase hregistry hcalls hlog
  cases hphase with
  | @replaying run _ hplan happlied hle =>
    by_cases hbegins : run.applied < run.plan.units ∧ t.stop.isRaised = false
    · have hcause : cause? w m { t with phase := .replaying run } = some (.owed run) :=
        if_pos hbegins
      have hmore : n < plan.units.toNat := by
        rw [← hplan, ← happlied]
        exact UInt64.lt_iff_toNat_lt.mp hbegins.1
      simp only [dueAfter, steadyAct, hcause, Option.isSome_some, if_true, Bool.toNat_true, runActs,
        act, replayAct, poll_of_cause hcause]
      have hdue : cause? w ⟨m.wall, due⟩
          { t with phase := .waiting due, stop := StopSignal.lowered } =
            some (.due (due + w.clock.tickInterval.nanos)) :=
        if_pos ⟨rfl, Nat.le_refl due⟩
      rw [poll_of_cause hdue]
      refine beside_tick rfl (.intro hplan happlied hmore) hregistry hcalls hlog
    · have hcause : cause? w m { t with phase := .replaying run } = none := if_neg hbegins
      simp only [dueAfter, steadyAct, hcause, Option.isSome_none, if_false, Bool.toNat_false,
        runActs, act, replayAct, poll, if_neg hbegins, Bool.false_eq_true]
      exact Beside.intro t (.replayed hplan happlied hle) hregistry hcalls hlog
  | yielding hplan happlied hle =>
    exact Beside.intro t (.replaying hplan happlied hle) hregistry hcalls hlog
  | _ => exact hstay

theorem beside_answer {x y : Ticker × Surroundings} (h : Beside plan base due n x y) (m : Moment)
    (r : Reply CallError) :
    Beside plan base due n (x.1.replayAct w (.reply m r) x.2) (y.1.answer w m r y.2) := by
  obtain ⟨t, hphase, hregistry, hcalls, hlog⟩ := h
  have hstay := Beside.intro t hphase hregistry hcalls hlog
  cases hphase with
  | publishing hcause world =>
    refine beside_record rfl hcause ?_ ?_ ?_ world
    · cases r <;> exact hregistry
    · cases r <;> exact hcalls
    · cases r <;> exact hlog
  | askingWeather hcause synthetic season =>
    refine Beside.intro t (beside_restAfter hcause) ?_ ?_ ?_
    · cases r <;> exact hregistry
    · cases r <;> exact hcalls
    · cases r <;> exact hlog
  | _ => exact hstay

theorem recast_seen {e e' : Event} (he : e.Recast e')
    (hlog : EventLog.Recast base s.log s'.log) (isSeen : Bool) :
    EventLog.Recast base (seen isSeen (Filing.start e) s).2.log
      (seen isSeen (Filing.start e') s').2.log := by
  cases isSeen with
  | true => exact hlog.file he
  | false => exact hlog

theorem replayAct_append_of_idle (m : Moment) {t : Ticker} (hidle : t.filing? = none)
    (isSeen : Bool) (r : Reply LogError) (s : Surroundings) :
    t.replayAct w (.append m isSeen r) s = (t, s) := by
  rw [replayAct]
  split
  · rfl
  · exact endAppend_of_idle m hidle isSeen r s

theorem beside_endAppend {x y : Ticker × Surroundings} (h : Beside plan base due n x y)
    (m : Moment) (isSeen : Bool) (r : Reply LogError) :
    Beside plan base due n (x.1.replayAct w (.append m isSeen r) x.2)
      (y.1.endAppend w m isSeen r y.2) := by
  obtain ⟨t, hphase, hregistry, hcalls, hlog⟩ := h
  rename_i s s'
  have hstay := Beside.intro t hphase hregistry hcalls hlog
  cases hphase with
  | @recording _ cause cause' hcause gameTime e e' hevent =>
    obtain ⟨after, s₁, hregistry₁, hcalls₁, hlog₁, heq⟩ :=
      endAppend_recording (w := w) m (Filing.start e) isSeen r t s
    obtain ⟨after', s₂, hregistry₂, hcalls₂, hlog₂, heq'⟩ :=
      endAppend_recording (w := w) m (Filing.start e') isSeen r
        { t with stop := StopSignal.lowered } s'
    have hseen := recast_seen hevent hlog (isSeen || decide (r = .answered))
    simp only [replayAct, act]
    rw [heq, heq']
    refine beside_askWeather hcause ?_ ?_ ?_ gameTime
    · rw [hregistry₁, hregistry₂, hregistry]
    · rw [hcalls₁, hcalls₂, hcalls]
    · rw [hlog₁, hlog₂]
      exact hseen
  | _ =>
    rw [replayAct_append_of_idle m rfl, endAppend_of_idle m rfl]
    exact hstay

theorem beside_stop {x y : Ticker × Surroundings} (h : Beside plan base due n x y) :
    Beside plan base due n (x.1.replayAct w .stop x.2) y := by
  obtain ⟨t, hphase, hregistry, hcalls, hlog⟩ := h
  have hstay := Beside.intro t hphase hregistry hcalls hlog
  have hasked := Beside.intro t.requestStop hphase hregistry hcalls hlog
  cases hphase with
  | replayed => exact hstay
  | _ => exact hasked

def begun (acts : List Act) : Nat := acts.countP Act.isTurn

theorem begun_steadyAct (w : Wiring) (due : Nat) (t : Ticker) (m : Moment) :
    begun (t.steadyAct w due (.turn m)) = (t.cause? w m).isSome.toNat := by
  rw [steadyAct]
  cases (t.cause? w m).isSome <;> rfl

theorem dueAfter_eq (w : Wiring) (due : Nat) (t : Ticker) (a : Act) : t.dueAfter w due a =
    due + begun (t.steadyAct w due a) * w.clock.tickInterval.nanos := by
  cases a with
  | turn m =>
    rw [begun_steadyAct, dueAfter]
    cases (t.cause? w m).isSome <;> simp
  | stop | reply | append => simp [dueAfter, steadyAct, begun, Act.isTurn]

/-- Whatever happens to a catch-up, and to the steady ticker with it, leaves them side by side. -/
theorem beside_act {x y : Ticker × Surroundings} (h : Beside plan base due n x y) (a : Act) :
    Beside plan base (x.1.dueAfter w due a) (n + begun (x.1.steadyAct w due a))
      (x.1.replayAct w a x.2) (y.1.runActs w (x.1.steadyAct w due a) y.2) := by
  cases a with
  | turn m => exact begun_steadyAct w due x.1 m ▸ beside_turn h m
  | stop => exact beside_stop h
  | reply m r => exact beside_answer h m r
  | append m isSeen r => exact beside_endAppend h m isSeen r

theorem runActs_append (acts acts' : List Act) (t : Ticker) (s : Surroundings) :
    t.runActs w (acts ++ acts') s =
      (t.runActs w acts s).1.runActs w acts' (t.runActs w acts s).2 := by
  induction acts generalizing t s with
  | nil => rfl
  | cons a acts ih => exact ih _ _

theorem begun_append (acts acts' : List Act) : begun (acts ++ acts') = begun acts + begun acts' :=
  List.countP_append

theorem beside_replay {x y : Ticker × Surroundings} (h : Beside plan base due n x y)
    (acts : List Act) : Beside plan base
      (due + begun (x.1.steadyActs w due acts x.2) * w.clock.tickInterval.nanos)
      (n + begun (x.1.steadyActs w due acts x.2)) (x.1.replay w acts x.2)
      (y.1.runActs w (x.1.steadyActs w due acts x.2) y.2) := by
  induction acts generalizing x y due n with
  | nil =>
    have hnone : begun (x.1.steadyActs w due [] x.2) = 0 := rfl
    rw [hnone, Nat.zero_mul]
    exact h
  | cons a acts ih =>
    have hrest := ih (beside_act (w := w) h a)
    rw [dueAfter_eq, Nat.add_assoc, Nat.add_assoc, ← Nat.add_mul, ← begun_append] at hrest
    rw [← dueAfter_eq, ← runActs_append] at hrest
    exact hrest

/-! ### What a catch-up counts -/

/-- The version of the last event once the tick under way is recorded. -/
def versionDue (t : Ticker) : Count :=
  match t.phase with
  | .publishing _ _ => t.version.next
  | _ => t.version

/-- How far the ticker of a world has come with its ticks and its events. -/
structure HasReached (t : Ticker) (s : Surroundings) (a : WorldId) (ticks events : Nat) : Prop where
  world : t.world = a
  entry : ∃ entry, s.registry.get? a = some entry ∧ entry.markerFits = true ∧
    entry.tickCount.toNat = min ticks Count.greatest
  version : t.versionDue.toNat = min events Count.greatest

theorem versionDue_restAfter (t : Ticker) (cause : TickCause) :
    versionDue { t with phase := restAfter w cause } = t.version :=
  restAfter_cases (motive := fun _ phase => versionDue { t with phase := phase } = t.version) w
    cause (fun _ => rfl) (fun _ => rfl) fun _ => rfl

variable {b : WorldId} {ticks events : Nat}

theorem HasReached.of_keepsClocks (h : t.HasReached s b ticks events) {t' : Ticker}
    (hsame : t.IsSame t') (hclocks : s.registry.KeepsClocks s'.registry)
    (hversion : t'.versionDue = t.versionDue) : t'.HasReached s' b ticks events := by
  obtain ⟨hworld, ⟨entry, hentry, hfits, hticks⟩, hdue⟩ := h
  obtain ⟨new, hnew, hsame', -, hfits'⟩ := hclocks b entry hentry
  refine ⟨hsame.world.trans hworld, ⟨new, hnew, hfits' hfits, ?_⟩, ?_⟩
  · rw [hsame', hticks]
  · rw [hversion, hdue]

/-- The registry accepts every tick, so each of them counts, and each has an event. -/
theorem HasReached.tick (h : t.HasReached s b ticks events)
    (hversion : t.versionDue = t.version) (m : Moment) (cause : TickCause) :
    (t.tick w m cause s).1.HasReached (t.tick w m cause s).2 b (ticks + 1) (events + 1) := by
  obtain ⟨rfl, ⟨entry, hentry, hfits, hticks⟩, hdue⟩ := h
  have hregression := World.regression?_ticked hfits t.delta m.wall
  have hcounted : (entry.ticked t.delta m.wall).tickCount.toNat =
      min (ticks + 1) Count.greatest := by
    rw [World.ticked, Count.toNat_next, hticks]
    omega
  have hnext : t.version.next.toNat = min (events + 1) Count.greatest := by
    rw [Count.toNat_next, ← hversion, hdue]
    omega
  have hget : (Registry.mk (s.registry.table.set t.world (entry.ticked t.delta m.wall))).get?
      t.world = some (entry.ticked t.delta m.wall) :=
    (Registry.get?_set _ _ _ _).trans (if_pos rfl)
  have hfits' := (World.regression?_eq_none.mp hregression).2.2.2
  rw [Ticker.tick, Registry.update_eq _ hentry hregression]
  by_cases hpublishes : w.publishes = true
  · simp only [hpublishes, if_true]
    exact ⟨rfl, ⟨_, hget, hfits', hcounted⟩, hnext⟩
  · simp only [hpublishes, if_false, Bool.false_eq_true]
    exact ⟨rfl, ⟨_, hget, hfits', hcounted⟩, hnext⟩

theorem endAppend_keepsClocks (m : Moment) (isSeen : Bool) (r : Reply LogError) :
    s.registry.KeepsClocks (t.endAppend w m isSeen r s).2.registry := by
  rw [endAppend]
  cases isSeen || decide (r = .answered) with
  | true => exact (file_writes (m := m)).keepsClocks.trans (conclude_writes r).keepsClocks
  | false => exact (conclude_writes r).keepsClocks

theorem isSame_endAppend (m : Moment) (isSeen : Bool) (r : Reply LogError) :
    t.IsSame (t.endAppend w m isSeen r s).1 := by
  rw [endAppend]
  cases isSeen || decide (r = .answered) with
  | true =>
    have hfile : t.IsSame (t.file s).1 := isSame_file
    have hconclude : (t.file s).1.IsSame ((t.file s).1.conclude w m r (t.file s).2).1 :=
      isSame_conclude r
    exact ⟨hconclude.world.trans hfile.world, hconclude.stop.trans hfile.stop⟩
  | false => exact isSame_conclude r

/-- A catch-up counts the ticks that it begins, and nothing else. -/
theorem HasReached.replayAct {x y : Ticker × Surroundings} (h : Beside plan base due n x y)
    (hreached : x.1.HasReached x.2 b ticks events) (a : Act) :
    (x.1.replayAct w a x.2).1.HasReached (x.1.replayAct w a x.2).2 b
      (ticks + begun (x.1.steadyAct w due a)) (events + begun (x.1.steadyAct w due a)) := by
  obtain ⟨t, hphase, -, -, -⟩ := h
  cases a with
  | turn m =>
    rw [begun_steadyAct]
    cases hphase with
    | @replaying run _ hplan happlied hle =>
      cases hcause : cause? w m { t with phase := .replaying run } with
      | some cause =>
        simp only [Ticker.replayAct, act, poll_of_cause hcause]
        exact hreached.tick rfl m cause
      | none =>
        refine hreached.of_keepsClocks isSame_poll (hcause ▸ poll_writes).keepsClocks ?_
        have hover : ¬(run.applied < run.plan.units ∧ t.stop.isRaised = false) :=
          fun hmore => Option.some_ne_none _ ((if_pos hmore).symm.trans hcause)
        simp only [Ticker.replayAct, act, poll, if_neg hover]
        rfl
    | _ => exact hreached.of_keepsClocks ⟨rfl, rfl⟩ (Registry.keepsClocks_refl _) rfl
  | stop =>
    cases hphase <;> exact ⟨hreached.world, hreached.entry, hreached.version⟩
  | reply m r =>
    cases hphase with
    | replayed => exact hreached
    | publishing hcause world =>
      exact hreached.of_keepsClocks (isSame_answer (m := m) r)
        (answer_writes (m := m) r).keepsClocks rfl
    | askingWeather hcause synthetic season =>
      exact hreached.of_keepsClocks (isSame_answer (m := m) r)
        (answer_writes (m := m) r).keepsClocks (versionDue_restAfter t _)
    | _ => exact hreached
  | append m isSeen r =>
    cases hphase with
    | @recording _ cause _ hcause gameTime e e' hevent =>
      refine hreached.of_keepsClocks (isSame_endAppend m isSeen r)
        (endAppend_keepsClocks m isSeen r) ?_
      obtain ⟨phase, s', -, -, -, heq⟩ :=
        endAppend_recording (w := w) m (Filing.start e) isSeen r t _
      simp only [Ticker.replayAct, act]
      rw [heq, askWeather]
      split
      · exact versionDue_restAfter t _
      · rfl
    | _ =>
      rw [replayAct_append_of_idle m rfl]
      exact hreached

theorem HasReached.replay {x y : Ticker × Surroundings} (h : Beside plan base due n x y)
    (hreached : x.1.HasReached x.2 b ticks events) (acts : List Act) :
    (x.1.replay w acts x.2).1.HasReached (x.1.replay w acts x.2).2 b
      (ticks + begun (x.1.steadyActs w due acts x.2))
      (events + begun (x.1.steadyActs w due acts x.2)) := by
  induction acts generalizing x y due n ticks events with
  | nil => exact hreached
  | cons a acts ih =>
    have hrest := ih (beside_act (w := w) h a) (hreached.replayAct h a)
    rw [Nat.add_assoc, Nat.add_assoc, ← begun_append] at hrest
    exact hrest

/-! ### The stop of a catch-up -/

theorem replay_append (acts acts' : List Act) (t : Ticker) (s : Surroundings) :
    t.replay w (acts ++ acts') s = (t.replay w acts s).1.replay w acts' (t.replay w acts s).2 := by
  induction acts generalizing t s with
  | nil => rfl
  | cons a acts ih => exact ih _ _

theorem begun_steadyActs_append (due : Nat) (acts acts' : List Act) (t : Ticker)
    (s : Surroundings) : ∃ due', begun (t.steadyActs w due (acts ++ acts') s) =
      begun (t.steadyActs w due acts s) +
        begun ((t.replay w acts s).1.steadyActs w due' acts' (t.replay w acts s).2) := by
  induction acts generalizing t s due with
  | nil => exact ⟨due, (Nat.zero_add _).symm⟩
  | cons a acts ih =>
    obtain ⟨due', heq⟩ := ih (t.dueAfter w due a) (t.replayAct w a s).1 (t.replayAct w a s).2
    refine ⟨due', ?_⟩
    simp only [List.cons_append, steadyActs, begun_append, replay]
    rw [heq, Nat.add_assoc]

/-- No tick begins here any more: the catch-up has been asked to stop, or it has returned. -/
def IsSpent (t : Ticker) : Prop := t.stop.isRaised = true ∨ ∃ run, t.phase = .replayed run

theorem IsSpent.cause?_eq_none (h : t.IsSpent) (m : Moment) : t.cause? w m = none := by
  obtain hstop | ⟨run, hphase⟩ := h
  · rw [cause?]
    split <;> simp [hstop]
  · rw [cause?, hphase]

theorem isSpent_stop (t : Ticker) (s : Surroundings) : (t.replayAct w .stop s).1.IsSpent := by
  rw [replayAct]
  split
  · next run hphase => exact .inr ⟨run, hphase⟩
  · exact .inl rfl

theorem IsSpent.replayAct (h : t.IsSpent) (a : Act) (s : Surroundings) :
    (t.replayAct w a s).1.IsSpent := by
  rw [Ticker.replayAct]
  split
  · exact h
  · next hrunning =>
    have hraised : t.stop.isRaised = true :=
      h.resolve_right fun ⟨run, hphase⟩ => hrunning run hphase
    have hsame {t' : Ticker} (hsame : t.IsSame t') : t'.IsSpent := .inl (hsame.stop ▸ hraised)
    cases a with
    | turn m => exact hsame isSame_poll
    | stop => exact .inl rfl
    | reply m r => exact hsame (isSame_answer r)
    | append m isSeen r => exact hsame (isSame_endAppend m isSeen r)

theorem IsSpent.begun_eq_zero (h : t.IsSpent) (due : Nat) (acts : List Act) (s : Surroundings) :
    begun (t.steadyActs w due acts s) = 0 := by
  induction acts generalizing t s due with
  | nil => rfl
  | cons a acts ih =>
    rw [steadyActs, begun_append, ih (h.replayAct a s), Nat.add_zero]
    cases a with
    | turn m => rw [begun_steadyAct, h.cause?_eq_none m, Option.isSome_none, Bool.toNat_false]
    | stop | reply | append => rfl

/-- A catch-up that is asked to stop begins no tick any more, wherever it stands. -/
theorem begun_stop (due : Nat) (acts acts' : List Act) (t : Ticker) (s : Surroundings) :
    begun (t.steadyActs w due (acts ++ .stop :: acts') s) = begun (t.steadyActs w due acts s) := by
  obtain ⟨due', heq⟩ := begun_steadyActs_append (w := w) due acts (.stop :: acts') t s
  rw [heq, steadyActs, begun_append, (isSpent_stop _ _).begun_eq_zero]
  rfl

/-! ### The return of a catch-up -/

/-- Whether a catch-up waits for this to happen. -/
def awaits (t : Ticker) (a : Act) : Bool :=
  match t.phase, a with
  | .replaying _, .turn _ | .yielding _, .turn _ => true
  | .publishing _ _, .reply _ _ | .askingWeather _ _ _, .reply _ _ => true
  | .recording _ _ _, .append _ _ _ => true
  | _, _ => false

/-- What a catch-up can wait for at most until it returns. -/
def effortLeft (t : Ticker) : Nat := 6 * t.phase.owed + t.phase.stepsLeft

theorem effortLeft_restAfter (t : Ticker) (cause : TickCause) :
    effortLeft { t with phase := restAfter w cause } < 6 * cause.remaining + 6 := by
  have hsteps := Phase.stepsLeft_restAfter w cause
  simp only [effortLeft, owed_restAfter]
  omega

theorem effortLeft_tick (t : Ticker) (s : Surroundings) (m : Moment) (cause : TickCause) :
    (t.tick w m cause s).1.effortLeft < 6 * cause.remaining + 9 := by
  rw [tick]
  split
  · exact Nat.lt_add_right 3 (effortLeft_restAfter t cause)
  · simp only
    split
    · exact Nat.lt_succ_self _
    · exact Nat.lt_succ_of_lt (Nat.lt_succ_self _)

theorem effortLeft_askWeather (t : Ticker) (s : Surroundings) (cause : TickCause)
    (gameTime : Duration) :
    (t.askWeather w cause gameTime s).1.effortLeft < 6 * cause.remaining + 7 := by
  rw [askWeather]
  split
  · exact Nat.lt_succ_of_lt (effortLeft_restAfter t cause)
  · exact Nat.lt_succ_self _

/-- What a catch-up waits for gets it ahead, and nothing throws it back. -/
theorem effortLeft_replayAct {x y : Ticker × Surroundings} (h : Beside plan base due n x y)
    (a : Act) :
    (x.1.replayAct w a x.2).1.effortLeft + (x.1.awaits a).toNat ≤ x.1.effortLeft := by
  obtain ⟨t, hphase, -, -, -⟩ := h
  rename_i s _
  cases a with
  | turn m =>
    cases hphase with
    | @replaying run _ hplan happlied hle =>
      simp only [replayAct, act, poll]
      split
      · next hmore =>
        have hlt := UInt64.lt_iff_toNat_lt.mp hmore.1
        have htick := effortLeft_tick (w := w) { t with phase := .replaying run } s m (.owed run)
        simp only [effortLeft, Phase.owed, Phase.stepsLeft, TickCause.remaining, awaits,
          Bool.toNat_true] at htick ⊢
        omega
      · exact Nat.le_refl _
    | _ => exact Nat.le_refl _
  | stop =>
    cases hphase <;> exact Nat.le_refl _
  | reply m r =>
    cases hphase with
    | askingWeather hcause synthetic season => exact effortLeft_restAfter t _
    | _ => exact Nat.le_refl _
  | append m isSeen r =>
    cases hphase with
    | @recording _ cause _ hcause gameTime e e' hevent =>
      obtain ⟨phase, s', -, -, -, heq⟩ :=
        endAppend_recording (w := w) m (Filing.start e) isSeen r t _
      simp only [replayAct, act]
      rw [heq]
      exact effortLeft_askWeather _ s' cause gameTime
    | _ =>
      rw [replayAct_append_of_idle m rfl]
      exact Nat.le_refl _

/-- The first so many of what happens. -/
def firstOf (acts : Nat → Act) (n : Nat) : List Act := (List.range n).map acts

theorem firstOf_add (acts : Nat → Act) (n k : Nat) :
    firstOf acts (n + k) = firstOf acts n ++ firstOf (fun i => acts (n + i)) k := by
  rw [firstOf, List.range_add, List.map_append, List.map_map]
  rfl

theorem begun_firstOf_of_stop (due : Nat) {acts : Nat → Act} {i k : Nat} (hstop : acts i = .stop)
    (hle : i ≤ k) (t : Ticker) (s : Surroundings) :
    begun (t.steadyActs w due (firstOf acts k) s) =
      begun (t.steadyActs w due (firstOf acts i) s) := by
  obtain rfl | hlt := Nat.eq_or_lt_of_le hle
  · rfl
  · obtain ⟨later, rfl⟩ := Nat.exists_eq_add_of_lt hlt
    have hacts : firstOf acts (i + later + 1) =
        firstOf acts i ++ .stop :: firstOf (fun j => acts (i + (1 + j))) later := by
      rw [Nat.add_assoc, Nat.add_comm later, firstOf_add, firstOf_add, ← hstop]
      rfl
    rw [hacts]
    exact begun_stop due _ _ t s

theorem replay_firstOf_succ (acts : Nat → Act) (k : Nat) (t : Ticker) (s : Surroundings) :
    t.replay w (firstOf acts (k + 1)) s = (t.replay w (firstOf acts k) s).1.replayAct w (acts k)
      (t.replay w (firstOf acts k) s).2 := by
  rw [firstOf_add, replay_append]
  rfl

/-- A catch-up returns, if what it waits for keeps coming. -/
theorem exists_returned {x y : Ticker × Surroundings} (h : Beside plan base due n x y)
    (acts : Nat → Act)
    (hcomes : ∀ k, (x.1.replay w (firstOf acts k) x.2).1.returned? = none →
      ∃ i ≥ k, (x.1.replay w (firstOf acts i) x.2).1.awaits (acts i) = true) :
    ∃ k, (x.1.replay w (firstOf acts k) x.2).1.returned?.isSome = true := by
  have hsteps (k : Nat) : (x.1.replay w (firstOf acts (k + 1)) x.2).1.effortLeft +
      ((x.1.replay w (firstOf acts k) x.2).1.awaits (acts k)).toNat ≤
        (x.1.replay w (firstOf acts k) x.2).1.effortLeft := by
    rw [replay_firstOf_succ]
    exact effortLeft_replayAct (beside_replay h (firstOf acts k)) (acts k)
  refine exists_ended_of_descent (fun k => (x.1.replay w (firstOf acts k) x.2).1.effortLeft)
    (fun k => (x.1.replay w (firstOf acts k) x.2).1.awaits (acts k)) hsteps fun k hrunning => ?_
  exact hcomes k (by simpa using hrunning)

theorem exists_awaits {x y : Ticker × Surroundings} (h : Beside plan base due n x y)
    (hrunning : x.1.returned? = none) : ∃ a, x.1.awaits a = true := by
  obtain ⟨t, hphase, -, -, -⟩ := h
  cases hphase with
  | replaying | yielding => exact ⟨.turn default, rfl⟩
  | publishing | askingWeather => exact ⟨.reply default .answered, rfl⟩
  | recording => exact ⟨.append default true .answered, rfl⟩
  | replayed => cases hrunning

/-! ### The whole catch-up -/

theorem beside_start (plan : CatchUpPlan) (startedAt due : Nat) (t : Ticker)
    (s : Surroundings) :
    Beside plan s.log.newestFirst due 0 (t.replaying plan startedAt, s) (t.steadied due, s) :=
  have hphase : (Phase.replaying ⟨plan, 0, startedAt⟩).Beside plan due 0 (.waiting due) :=
    .replaying rfl rfl (Nat.zero_le _)
  Beside.intro t hphase rfl rfl ⟨[], [], rfl, rfl, .nil⟩

theorem Beside.eq_applied_add {x y : Ticker × Surroundings} (h : Beside plan base due n x y) :
    n = x.1.phase.applied + x.1.phase.isTicking.toNat := by
  obtain ⟨t, hphase, -, -, -⟩ := h
  exact hphase.eq_applied_add

theorem Beside.of_returned {x y : Ticker × Surroundings} (h : Beside plan base due n x y)
    {run : CatchUpRun} (hreturned : x.1.returned? = some run) :
    run.plan = plan ∧ run.applied.toNat = n ∧ n ≤ plan.units.toNat ∧
      y.1 = x.1.steadied due ∧ y.2.registry = x.2.registry ∧ y.2.calls = x.2.calls ∧
      EventLog.Recast base x.2.log y.2.log := by
  obtain ⟨t, hphases, hregistry, hcalls, hlog⟩ := h
  cases hphases with
  | replayed hplan happlied hle =>
    cases hreturned
    exact ⟨hplan, happlied, hle, rfl, hregistry, hcalls, hlog⟩
  | _ => cases hreturned

/-- A catch-up of any plan, whatever happens to it and whenever it is stopped, returns if what it
waits for keeps coming. What it has applied and what is pending make up the plan. It leaves the
registry, the calls, its version and its weather mark as a steady ticker does that makes so many
ticks, all of them whole, and the same log but for the flag of a catch-up in the events. Each of
these ticks counts and has an event, until a count can grow no more. After a stop only the tick
under way is still made, and a catch-up that was stopped before it began makes none. -/
theorem replay_eq_steady_ticks (w : Wiring) (t : Ticker) (s : Surroundings) {entry : World}
    (hentry : s.registry.get? t.world = some entry) (hfits : entry.markerFits = true)
    (plan : CatchUpPlan) (startedAt due : Nat) (acts : Nat → Act) :
    let start := t.replaying plan startedAt
    let reached (k : Nat) := start.replay w (firstOf acts k) s
    let besides (k : Nat) := start.steadyActs w due (firstOf acts k) s
    let steady (k : Nat) := (t.steadied due).runActs w (besides k) s
    (∀ k, (reached k).1.returned? = none → ∃ a, (reached k).1.awaits a = true) ∧
    ((∀ k, (reached k).1.returned? = none → ∃ i ≥ k, (reached i).1.awaits (acts i) = true) →
      ∃ k, (reached k).1.returned?.isSome = true) ∧
    ∀ k run, (reached k).1.returned? = some run →
      run.plan = plan ∧ run.applied.toNat + run.pending.toNat = plan.units.toNat ∧
      begun (besides k) = run.applied.toNat ∧
      (steady k).1 =
        (reached k).1.steadied (due + run.applied.toNat * w.clock.tickInterval.nanos) ∧
      (steady k).2.registry = (reached k).2.registry ∧
      (steady k).2.calls = (reached k).2.calls ∧
      EventLog.Recast s.log.newestFirst (reached k).2.log (steady k).2.log ∧
      (reached k).1.version.toNat =
        min (t.version.toNat + run.applied.toNat) Count.greatest ∧
      (∃ entry', (reached k).2.registry.get? t.world = some entry' ∧ entry'.tickCount.toNat =
        min (entry.tickCount.toNat + run.applied.toNat) Count.greatest) ∧
      (∀ i ≤ k, acts i = .stop → run.applied.toNat =
        (reached i).1.phase.applied + (reached i).1.phase.isTicking.toNat) ∧
      (t.stop.isRaised = true → run.applied = 0) := by
  intro start reached besides steady
  have hbegin := beside_start plan startedAt due t s
  have hbeside (k : Nat) := beside_replay (w := w) hbegin (firstOf acts k)
  have hstart : start.HasReached s t.world entry.tickCount.toNat t.version.toNat :=
    ⟨rfl, ⟨entry, hentry, hfits, (Nat.min_eq_left entry.tickCount.toNat_le_greatest).symm⟩,
      (Nat.min_eq_left t.version.toNat_le_greatest).symm⟩
  refine ⟨fun k hrunning => exists_awaits (hbeside k) hrunning, exists_returned hbegin acts,
    fun k run hreturned => ?_⟩
  obtain ⟨hplan, happlied, hunits, hticker, hregistry, hcalls, hlog⟩ :=
    (hbeside k).of_returned hreturned
  have hreached := hstart.replay (w := w) hbegin (firstOf acts k)
  rw [Nat.zero_add] at happlied hunits
  rw [← happlied] at hreached hticker
  obtain ⟨-, ⟨entry', hentry', -, hticks⟩, hversion⟩ := hreached
  refine ⟨hplan, ?_, happlied.symm, hticker, hregistry, hcalls, hlog, ?_, ⟨entry', hentry', hticks⟩,
    fun i hle hstop => ?_, fun hraised => ?_⟩
  · rw [CatchUpRun.pending, Count.toNat_sub, hplan]
    omega
  · rw [← hversion, versionDue, returned?_eq_some.mp hreturned]
  · rw [happlied, begun_firstOf_of_stop due hstop hle start s, ← (hbeside i).eq_applied_add,
      Nat.zero_add]
  · have hspent : start.IsSpent := .inl hraised
    exact UInt64.toNat_inj.mp (happlied.trans (hspent.begun_eq_zero due (firstOf acts k) s))

open Manager (momentAt)

/-- A catch-up that is stopped while the snapshot of its second tick is being published. -/
def stoppedInside (k : Nat) : Act :=
  let tick (millis : Nat) (after : List Act) : List Act :=
    Act.turn (momentAt millis) :: after ++ [.reply (momentAt millis) .answered,
      .append (momentAt millis) true .answered, .reply (momentAt millis) .timedOut]
  (tick 10 [] ++ tick 20 [.stop] ++ [Act.turn (momentAt 30)]).getD k .stop

theorem replay_eq_steady_ticks_of_stoppedInside :
    let w : Wiring := { Wiring.standard with publishes := true, asksWeather := true }
    let plan : CatchUpPlan := ⟨Duration.ofMillis 300, 3⟩
    let entry := World.starting ⟨⟨0⟩⟩ "world" .one (momentAt 0).wall
    let known : World := { entry with status := .catchingUp }
    catchingUpAlone.registry.get? halfHourly.world = some known ∧ known.markerFits = true ∧
      ∃ reached besides steady,
        (halfHourly.replaying plan 0).replay w (firstOf stoppedInside 10) catchingUpAlone =
          reached ∧
        (halfHourly.replaying plan 0).steadyActs w 0 (firstOf stoppedInside 10) catchingUpAlone =
          besides ∧
        (halfHourly.steadied 0).runActs w besides catchingUpAlone = steady ∧
        reached.1.returned? = some ⟨plan, 2, 0⟩ ∧ reached.2.calls.length = 4 ∧
        begun besides = 2 ∧ steady.2.registry = reached.2.registry ∧
        steady.2.calls = reached.2.calls ∧
        EventLog.Recast catchingUpAlone.log.newestFirst reached.2.log steady.2.log := by
  intro w plan entry known
  have hentry : catchingUpAlone.registry.get? halfHourly.world = some known := by decide +kernel
  have hfits : known.markerFits = true := by decide +kernel
  obtain ⟨-, -, hreplayed⟩ :=
    replay_eq_steady_ticks w halfHourly catchingUpAlone hentry hfits plan 0 0 stoppedInside
  beta_reduce at hreplayed
  have hreturned : ((halfHourly.replaying plan 0).replay w (firstOf stoppedInside 10)
      catchingUpAlone).1.returned? = some ⟨plan, 2, 0⟩ := by decide +kernel
  obtain ⟨-, -, hbegun, -, hregistry, hcalls, hlog, -⟩ := hreplayed 10 _ hreturned
  exact ⟨hentry, hfits, _, _, _, rfl, rfl, rfl, hreturned, by decide +kernel, hbegun, hregistry,
    hcalls, hlog⟩

/-- A catch-up of three ticks in a world that has made all but one of those that can be counted. -/
theorem tickCount_ne_of_fullReplay :
    let entry := World.starting ⟨⟨0⟩⟩ "world" .one (momentAt 0).wall
    let full : World := { entry with status := .catchingUp, tickCount := Count.ofNat (2 ^ 64 - 2) }
    let plan : CatchUpPlan := ⟨Duration.ofMillis 300, 3⟩
    let acts (k : Nat) : Act :=
      if k % 2 = 0 then .turn (momentAt k) else .append (momentAt k) true .answered
    let reached := (halfHourly.replaying plan 0).replay Wiring.standard (firstOf acts 7)
      { catchingUpAlone with registry := ⟨WorldTable.empty.set ⟨⟨0⟩⟩ full⟩ }
    reached.1.returned? = some ⟨plan, 3, 0⟩ ∧
      (reached.2.registry.get? ⟨⟨0⟩⟩).map (·.tickCount.toNat) ≠
        some (full.tickCount.toNat + 3) := by
  decide +kernel

end Ticker

end WorldClock
