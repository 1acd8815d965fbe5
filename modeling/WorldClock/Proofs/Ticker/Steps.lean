import WorldClock.Proofs.Event.Histories
import WorldClock.Proofs.Registry

/-!
# What a ticker can do

`Ticker.Goes` lists the steps that a ticker takes on its own and with replies, together with what
each does to the registry's entry of its world. `Filing.Files` lists what becomes of an append when
the log sees it. Everything later about tickers is a case analysis of these two; the steps
themselves are opened here only.
-/

namespace WorldClock

/-! ### Appends -/

/-- What becomes of an append, and of the history of its world, when the log sees it. -/
inductive Filing.Files (f : Filing) (events : List Event) : Filing → List Event → Prop where
  | again (hverdict : f.verdict ≠ none) : Files f events f events
  | stored (hverdict : f.verdict = none) (hfault : f.event.fault? = none)
    (hfresh : ∀ e ∈ events, e.version ≠ f.event.version) :
    Files f events ⟨f.event, some (.ok ())⟩ (f.event :: events)
  | refused (error : LogError) (hverdict : f.verdict = none)
    (hcause : f.event.fault? ≠ none ∨ ∃ e ∈ events, e.version = f.event.version) :
    Files f events ⟨f.event, some (.error error)⟩ events

theorem Filing.file_files (f : Filing) (log : EventLog) {world : WorldId}
    (hworld : f.event.aggregateId = world.text) :
    Filing.Files f (log.about world) (f.file log).1 ((f.file log).2.about world) := by
  rw [file]
  split
  · next hverdict =>
    exact .again (by simp [hverdict])
  · next hverdict =>
    split
    · next log' happend =>
      obtain ⟨hfault, hfresh, habout⟩ := EventLog.append_eq_ok happend
      rw [habout, if_pos hworld]
      refine .stored hverdict hfault fun e he heq => ?_
      rw [hworld, EventLog.hasVersion_eq, List.any_eq_false] at hfresh
      exact hfresh e he (by simp [heq])
    · next error happend =>
      refine .refused error hverdict ?_
      rw [EventLog.append] at happend
      split at happend
      · next hfault => exact .inl (by simp [hfault])
      · split at happend
        · next hversion =>
          rw [hworld, EventLog.hasVersion_eq, List.any_eq_true] at hversion
          obtain ⟨e, he, heq⟩ := hversion
          exact .inr ⟨e, he, by simpa using heq⟩
        · cases happend

theorem Filing.about_file (f : Filing) (log : EventLog) {world other : WorldId}
    (hworld : f.event.aggregateId = world.text) (hother : other ≠ world) :
    (f.file log).2.about other = log.about other := by
  rw [file]
  split
  · rfl
  · split
    · next log' happend =>
      obtain ⟨-, -, habout⟩ := EventLog.append_eq_ok happend
      have hne : f.event.aggregateId ≠ other.text := by
        rw [hworld]
        exact fun htext => hother (WorldId.text_injective htext).symm
      rw [habout, if_neg hne]
    · rfl

namespace Filing.Files

variable {f f' : Filing} {events events' : List Event}

theorem event_eq (h : Files f events f' events') : f'.event = f.event := by
  cases h <;> rfl

theorem events_eq (h : Files f events f' events') :
    events' = events ∨ events' = f.event :: events ∧ f.verdict = none ∧ f.event.fault? = none ∧
      ∀ e ∈ events, e.version ≠ f.event.version := by
  cases h with
  | again => exact .inl rfl
  | stored hverdict hfault hfresh => exact .inr ⟨rfl, hverdict, hfault, hfresh⟩
  | refused => exact .inl rfl

end Filing.Files

/-! ### Phases -/

def Phase.isWaiting : Phase → Bool
  | .waiting _ => true
  | _ => false

def Phase.isSteadyTick : Phase → Bool
  | .publishing cause _ | .recording cause _ _ | .askingWeather cause _ _ => !cause.isCatchUp
  | _ => false

/-- Whether a ticker is between two ticks of a catch-up. -/
def Phase.isReplaying : Phase → Bool
  | .replaying _ => true
  | _ => false

def Phase.isOwedTick : Phase → Bool
  | .publishing cause _ | .recording cause _ _ | .askingWeather cause _ _ => cause.isCatchUp
  | _ => false

def Phase.isCrashed : Phase → Bool
  | .crashed _ => true
  | _ => false

def Phase.beginsTick (before after : Phase) : Bool := before.isWaiting && after.isSteadyTick

def Phase.beginsOwedTick (before after : Phase) : Bool := before.isReplaying && after.isOwedTick

/-- Ticks of a catch-up that are left when a tick has been made. -/
def TickCause.remaining : TickCause → Nat
  | .owed run => run.plan.units.toNat - run.applied.toNat - 1
  | .due _ => 0

def Phase.owed : Phase → Nat
  | .starting (some plan) => plan.units.toNat
  | .replaying run | .yielding run | .replayed run => run.plan.units.toNat - run.applied.toNat
  | .publishing cause _ | .recording cause _ _ | .askingWeather cause _ _ => cause.remaining
  | .finished pending => pending.toNat
  | _ => 0

/-! ### Turns and replies -/

namespace Ticker

/-- After a tick a ticker waits for the next one, or goes on with a catch-up in which it has made
one more. -/
@[elab_as_elim]
theorem restAfter_cases {motive : TickCause → Phase → Prop} (w : Wiring) (cause : TickCause)
    (due : ∀ next, motive (.due next) (.waiting next))
    (yielding : ∀ run : CatchUpRun,
      motive (.owed run) (.yielding { run with applied := run.applied.next }))
    (replaying : ∀ run : CatchUpRun,
      motive (.owed run) (.replaying { run with applied := run.applied.next })) :
    motive cause (restAfter w cause) := by
  cases cause with
  | due next => exact due next
  | owed run =>
    simp only [restAfter]
    split
    · exact yielding run
    · exact replaying run

theorem owed_restAfter (w : Wiring) (cause : TickCause) :
    (restAfter w cause).owed = cause.remaining := by
  have howed (run : CatchUpRun) : run.plan.units.toNat - run.applied.next.toNat =
      run.plan.units.toNat - run.applied.toNat - 1 := by
    have hgreatest := run.plan.units.toNat_le_greatest
    have happlied := run.applied.toNat_le_greatest
    have hnext := Count.toNat_next run.applied
    omega
  exact restAfter_cases w cause (fun _ => rfl) howed howed

/-- What a ticker that takes a turn makes its next tick for. -/
inductive Begins (w : Wiring) (m : Moment) (t : Ticker) : TickCause → Prop where
  | owed {run : CatchUpRun} (hphase : t.phase = .replaying run)
    (hpending : run.applied < run.plan.units) (hstop : t.stop.isRaised = false) :
    Begins w m t (.owed run)
  | due {due : Nat} (hphase : t.phase = .waiting due) (hstop : t.stop.isRaised = false)
    (hdue : due ≤ m.uptime) : Begins w m t (.due (due + w.clock.tickInterval.nanos))

/-- The steps of a ticker, each with the entry of its world before and after. -/
inductive Goes (w : Wiring) (m : Moment) (t : Ticker) (entry : World) : Ticker → World → Prop where
  | begin (hphase : t.phase = .starting none) :
    Goes w m t entry { t with phase := .waiting (firstDue w m) } entry
  | beginReplay {plan : CatchUpPlan} (hphase : t.phase = .starting (some plan)) :
    Goes w m t entry { t with phase := .replaying ⟨plan, 0, m.uptime⟩ } entry
  | tick {cause : TickCause} (hbegins : t.Begins w m cause) :
    Goes w m t entry { t with phase := .publishing cause (entry.ticked t.delta m.wall) }
      (entry.ticked t.delta m.wall)
  | tickUnpublished {cause : TickCause} (hbegins : t.Begins w m cause) :
    Goes w m t entry (t.record m cause (entry.ticked t.delta m.wall))
      (entry.ticked t.delta m.wall)
  | published {cause : TickCause} {world : World} (hphase : t.phase = .publishing cause world) :
    Goes w m t entry (t.record m cause world) entry
  | recorded {cause : TickCause} {gameTime : Duration} {filing : Filing} {r r' : Reply LogError}
    (hphase : t.phase = .recording cause gameTime filing) (houtcome : filing.outcome? r = some r')
    (hweather : gameTime.sub t.weatherSyncedAt < w.clock.weatherInterval ∨ w.asksWeather = false) :
    Goes w m t entry (t.endTick w cause) entry
  | asked {cause : TickCause} {gameTime : Duration} {filing : Filing} {r r' : Reply LogError}
    (hphase : t.phase = .recording cause gameTime filing) (houtcome : filing.outcome? r = some r')
    (hweather : w.clock.weatherInterval ≤ gameTime.sub t.weatherSyncedAt)
    (hasks : w.asksWeather = true) :
    Goes w m t entry
      { t with
        weatherSyncedAt := gameTime
        phase := .askingWeather cause (Utc.synthetic w.clock.epoch gameTime)
          (w.calendar.season gameTime) }
      { entry with weatherSyncedAt := gameTime }
  | weathered {cause : TickCause} {synthetic : Utc} {season : Season}
    (hphase : t.phase = .askingWeather cause synthetic season) :
    Goes w m t entry (t.endTick w cause) entry
  | goOn {run : CatchUpRun} (hphase : t.phase = .yielding run) :
    Goes w m t entry { t with phase := .replaying run } entry
  | endReplay {run : CatchUpRun} (hphase : t.phase = .replaying run)
    (hover : ¬(run.applied < run.plan.units ∧ t.stop.isRaised = false)) :
    Goes w m t entry { t with phase := .replayed run } entry
  | interrupt {run : CatchUpRun} (hphase : t.phase = .replayed run) (hpending : run.pending ≠ 0) :
    Goes w m t entry { t with phase := .finished run.pending } entry
  | complete {run : CatchUpRun} (hphase : t.phase = .replayed run) (hpending : run.pending = 0) :
    Goes w m t entry
      { t with
        version := t.version.next
        phase := .resuming run
          (Filing.start (t.nextEvent m (.resumed ⟨run.plan.units, run.plan.missed.toMillis⟩))) }
      (markRunning entry)
  | resumed {run : CatchUpRun} {filing : Filing} {r r' : Reply LogError}
    (hphase : t.phase = .resuming run filing) (houtcome : filing.outcome? r = some r') :
    Goes w m t entry { t with phase := .waiting (firstDue w m) } entry
  | halt {due : Nat} (hphase : t.phase = .waiting due) (hstop : t.stop.isRaised = true) :
    Goes w m t entry { t with phase := .finished 0 } entry
  | crash (culprit : String) (hover : t.isOver = false) :
    Goes w m t entry { t with phase := .crashed culprit } entry

theorem Goes.world_eq {w : Wiring} {m : Moment} {t t' : Ticker} {entry entry' : World}
    (h : Goes w m t entry t' entry') : t'.world = t.world := by
  cases h <;> rfl

theorem Goes.stop_eq {w : Wiring} {m : Moment} {t t' : Ticker} {entry entry' : World}
    (h : Goes w m t entry t' entry') : t'.stop = t.stop := by
  cases h <;> rfl

theorem Goes.entry_fits {w : Wiring} {m : Moment} {a : WorldId} {t t' : Ticker}
    {entry entry' : World} (h : Goes w m t entry t' entry') (hid : entry.id = a)
    (hmarker : entry.markerFits = true) : entry'.id = a ∧ entry'.markerFits = true := by
  cases h with
  | complete =>
    have hregression := World.regression?_eq_none.mp (World.regression?_markRunning hmarker)
    exact ⟨by rw [hregression.1, hid], hregression.2.2.2⟩
  | _ => exact ⟨hid, hmarker⟩

theorem filing?_endTick (w : Wiring) (cause : TickCause) (t : Ticker) :
    (t.endTick w cause).filing? = none := by
  rw [endTick, filing?]
  exact restAfter_cases w cause (fun _ => rfl) (fun _ => rfl) fun _ => rfl

/-- An append that a ticker waits for after a step has just begun. -/
theorem Goes.filing_eq {w : Wiring} {m : Moment} {t t' : Ticker} {entry entry' : World}
    {filing : Filing} (h : Goes w m t entry t' entry') (hfiling : t'.filing? = some filing) :
    ∃ d : Details, d.kind ≠ .created ∧
      filing = Filing.start (Event.ofWorld t.world t'.version m.wall d) := by
  cases h with
  | tickUnpublished | published =>
    cases hfiling
    exact ⟨.ticked _, by rintro ⟨⟩, rfl⟩
  | complete =>
    cases hfiling
    exact ⟨.resumed _, by rintro ⟨⟩, rfl⟩
  | recorded | weathered =>
    rw [filing?_endTick] at hfiling
    cases hfiling
  | _ => cases hfiling

theorem Goes.aggregateId_eq {w : Wiring} {m : Moment} {t t' : Ticker} {entry entry' : World}
    {filing : Filing} (h : Goes w m t entry t' entry') (hfiling : t'.filing? = some filing) :
    filing.event.aggregateId = t.world.text := by
  obtain ⟨d, -, rfl⟩ := h.filing_eq hfiling
  rfl

theorem Goes.version_le {w : Wiring} {m : Moment} {t t' : Ticker} {entry entry' : World}
    (h : Goes w m t entry t' entry') : t.version ≤ t'.version := by
  cases h with
  | tickUnpublished | published | complete => exact Count.le_next t.version
  | _ => exact UInt64.le_refl _

/-- What a step of a ticker leaves of its surroundings: the log, and the entries of other worlds. -/
structure Leaves (world : WorldId) (entry' : World) (s s' : Surroundings) : Prop where
  log : s'.log = s.log
  entry : s'.registry.get? world = some entry'
  others : ∀ other, other ≠ world → s'.registry.get? other = s.registry.get? other

def StaysOrGoes (w : Wiring) (m : Moment) (t : Ticker) (entry : World) (s : Surroundings)
    (result : Ticker × Surroundings) : Prop :=
  ∃ entry', Leaves t.world entry' s result.2 ∧
    (result.1 = t ∧ entry' = entry ∨ Goes w m t entry result.1 entry')

variable {w : Wiring} {m : Moment} {t : Ticker} {entry : World} {s : Surroundings}

theorem leaves_of_eq {s' : Surroundings} (hentry : s.registry.get? t.world = some entry)
    (hlog : s'.log = s.log) (hregistry : s'.registry = s.registry) :
    Leaves t.world entry s s' :=
  ⟨hlog, by rw [hregistry, hentry], fun other _ => by rw [hregistry]⟩

theorem leaves_of_set {s' : Surroundings} {entry' : World} (hlog : s'.log = s.log)
    (hregistry : s'.registry = ⟨s.registry.table.set t.world entry'⟩) :
    Leaves t.world entry' s s' :=
  ⟨hlog, by rw [hregistry, Registry.get?_set, if_pos rfl],
    fun other hother => by rw [hregistry, Registry.get?_set, if_neg hother]⟩

theorem staysOrGoes_refl (hentry : s.registry.get? t.world = some entry) :
    StaysOrGoes w m t entry s (t, s) :=
  ⟨entry, leaves_of_eq hentry rfl rfl, .inl ⟨rfl, rfl⟩⟩

theorem staysOrGoes_of_goes {t' : Ticker} {s' : Surroundings}
    (hentry : s.registry.get? t.world = some entry) (hlog : s'.log = s.log)
    (hregistry : s'.registry = s.registry) (h : Goes w m t entry t' entry) :
    StaysOrGoes w m t entry s (t', s') :=
  ⟨entry, leaves_of_eq hentry hlog hregistry, .inr h⟩

theorem project_log (s : Surroundings) (world : WorldId) (e : Event) :
    (s.project world e).log = s.log := by
  rw [Surroundings.project]
  split
  · rfl
  · split <;> rfl

theorem project_registry (s : Surroundings) (world : WorldId) (e : Event) :
    (s.project world e).registry = s.registry := by
  rw [Surroundings.project]
  split
  · rfl
  · split <;> rfl

theorem project_calls (s : Surroundings) (world : WorldId) (e : Event) :
    (s.project world e).calls = s.calls := by
  rw [Surroundings.project]
  split
  · rfl
  · split <;> rfl

theorem settle_log (kind : EventKind) (e : Event) (r : Reply LogError) :
    (t.settle w kind e r s).log = s.log := by
  cases r with
  | answered => exact project_log s t.world e
  | failed error => rfl
  | timedOut => rfl

theorem settle_registry (kind : EventKind) (e : Event) (r : Reply LogError) :
    (t.settle w kind e r s).registry = s.registry := by
  cases r with
  | answered => exact project_registry s t.world e
  | failed error => rfl
  | timedOut => rfl

theorem settle_calls (kind : EventKind) (e : Event) (r : Reply LogError) :
    (t.settle w kind e r s).calls = s.calls := by
  cases r with
  | answered => exact project_calls s t.world e
  | failed error => rfl
  | timedOut => rfl

theorem tick_goes (hentry : s.registry.get? t.world = some entry)
    (hmarker : entry.markerFits = true) {cause : TickCause} (hbegins : t.Begins w m cause) :
    StaysOrGoes w m t entry s (t.tick w m cause s) := by
  have hupdate := Registry.update_eq _ hentry (World.regression?_ticked hmarker t.delta m.wall)
  rw [tick, hupdate]
  by_cases hpublishes : w.publishes = true
  · simp only [hpublishes, if_true]
    exact ⟨_, leaves_of_set rfl rfl, .inr (.tick hbegins)⟩
  · simp only [hpublishes, if_false, Bool.false_eq_true]
    exact ⟨_, leaves_of_set rfl rfl, .inr (.tickUnpublished hbegins)⟩

theorem endCatchUp_goes (hentry : s.registry.get? t.world = some entry)
    (hmarker : entry.markerFits = true) {run : CatchUpRun} (hphase : t.phase = .replayed run) :
    StaysOrGoes w m t entry s (t.endCatchUp m run s) := by
  rw [endCatchUp]
  by_cases hpending : run.pending = 0
  · have hupdate := Registry.update_eq _ hentry (World.regression?_markRunning hmarker)
    simp only [hpending, ne_eq, not_true_eq_false, if_false, hupdate]
    exact ⟨_, leaves_of_set rfl rfl, .inr (.complete hphase hpending)⟩
  · simp only [hpending, ne_eq, not_false_eq_true, if_true]
    exact staysOrGoes_of_goes hentry rfl rfl (.interrupt hphase hpending)

theorem poll_goes (hentry : s.registry.get? t.world = some entry)
    (hmarker : entry.markerFits = true) : StaysOrGoes w m t entry s (t.poll w m s) := by
  rw [poll]
  split
  · next hphase => exact staysOrGoes_of_goes hentry rfl rfl (.begin hphase)
  · next plan hphase => exact staysOrGoes_of_goes hentry rfl rfl (.beginReplay hphase)
  · next run hphase =>
    split
    · next hmore => exact tick_goes hentry hmarker (.owed hphase hmore.1 hmore.2)
    · next hover => exact staysOrGoes_of_goes hentry rfl rfl (.endReplay hphase hover)
  · next run hphase => exact staysOrGoes_of_goes hentry rfl rfl (.goOn hphase)
  · next run hphase => exact endCatchUp_goes hentry hmarker hphase
  · next due hphase =>
    split
    · next hstop => exact staysOrGoes_of_goes hentry rfl rfl (.halt hphase hstop)
    · next hstop =>
      have hlowered : t.stop.isRaised = false := by simpa using hstop
      split
      · next hdue => exact tick_goes hentry hmarker (.due hphase hlowered hdue)
      · exact staysOrGoes_refl hentry
  · exact staysOrGoes_refl hentry

theorem answer_goes (hentry : s.registry.get? t.world = some entry) (r : Reply CallError) :
    StaysOrGoes w m t entry s (t.answer w m r s) := by
  rw [answer.eq_def]
  split
  · next cause world hphase =>
    cases r <;> exact staysOrGoes_of_goes hentry rfl rfl (.published hphase)
  · next cause synthetic season hphase =>
    cases r <;> exact staysOrGoes_of_goes hentry rfl rfl (.weathered hphase)
  · exact staysOrGoes_refl hentry

theorem askWeather_goes (hentry : s.registry.get? t.world = some entry)
    (hmarker : entry.markerFits = true) {s₀ : Surroundings} (hlog : s.log = s₀.log)
    (hregistry : s.registry = s₀.registry) {cause : TickCause} {gameTime : Duration}
    {filing : Filing} {r r' : Reply LogError} (hphase : t.phase = .recording cause gameTime filing)
    (houtcome : filing.outcome? r = some r') :
    StaysOrGoes w m t entry s₀ (t.askWeather w cause gameTime s) := by
  rw [askWeather]
  split
  · next hweather =>
    exact staysOrGoes_of_goes (hregistry ▸ hentry) hlog hregistry
      (.recorded hphase houtcome hweather)
  · next hweather =>
    rw [not_or] at hweather
    have hmark : entry.regression? { entry with weatherSyncedAt := gameTime } = none :=
      World.regression?_of_totals rfl rfl rfl hmarker
    have hupdate := Registry.update_eq (fun world => { world with weatherSyncedAt := gameTime })
      hentry hmark
    simp only [hupdate]
    refine ⟨_, leaves_of_set hlog (by rw [← hregistry]; rfl), .inr (.asked hphase houtcome ?_ ?_)⟩
    · exact Nat.le_of_not_lt hweather.1
    · simpa using hweather.2

theorem conclude_goes (hentry : s.registry.get? t.world = some entry)
    (hmarker : entry.markerFits = true) (r : Reply LogError) :
    StaysOrGoes w m t entry s (t.conclude w m r s) := by
  rw [conclude]
  split
  · next cause gameTime filing hphase =>
    split
    · exact staysOrGoes_refl hentry
    · next r' houtcome =>
      have hlog := settle_log (w := w) (t := t) (s := s) .ticked filing.event r'
      have hregistry := settle_registry (w := w) (t := t) (s := s) .ticked filing.event r'
      exact askWeather_goes (hregistry ▸ hentry) hmarker hlog hregistry hphase houtcome
  · next run filing hphase =>
    split
    · exact staysOrGoes_refl hentry
    · next r' houtcome =>
      exact staysOrGoes_of_goes hentry (settle_log .resumed filing.event r')
        (settle_registry .resumed filing.event r') (.resumed hphase houtcome)
  · exact staysOrGoes_refl hentry

theorem crash_goes (hentry : s.registry.get? t.world = some entry) (culprit : String) :
    StaysOrGoes w m t entry s (t.crash culprit, s) := by
  rw [crash]
  split
  · exact staysOrGoes_refl hentry
  · next hover =>
    exact staysOrGoes_of_goes hentry rfl rfl (.crash culprit (by simpa using hover))

end Ticker

end WorldClock
