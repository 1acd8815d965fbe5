import WorldClock.Proofs.Manager.View

/-!
# What can happen to one world

`View.Step` lists what a process can do to what it holds of one world: the stages of a spawn and of
a stop, the steps of the world's ticker, and what becomes of the appends of both.
`Manager.apply_step` says that a move does nothing to a world or takes one of these steps; it needs
of the process only that its parts fit together (`View.Coherent`), which every step keeps so.
-/

namespace WorldClock

/-- A dilation that a spawn does not refuse. -/
def SpawnOrder.IsAccepted (order : SpawnOrder) (w : Wiring) : Prop :=
  (ClockSettings.tickDelta? w.clock.tickInterval order.dilation).isSome = true

/-- The event of a spawn. -/
def SpawnOrder.creation (order : SpawnOrder) (a : WorldId) (version : Count) (now : Instant)
    (resumed : Bool) : Event :=
  Event.ofWorld a version now (.created ⟨order.name, order.dilation, resumed⟩)

/-- The event of a stop. -/
def World.pauseEvent (w : World) (a : WorldId) (version : Count) (now pausedAt : Instant) : Event :=
  Event.ofWorld a version now <| .paused {
    tickCount := w.tickCount
    gameTimeNanos := w.gameTime.toNanoCount
    pausedAt := some pausedAt
    weatherSyncedNanos := w.weatherSyncedAt.toNanoCount }

namespace View

/-- A view after its world has been paused. -/
def paused (v : View) (w : Wiring) (m : Moment) (a : WorldId) (entry : World)
    (version pending : Count) : View :=
  let pausedAt := m.wall.backDated w.clock.tickInterval pending
  let world := World.paused pausedAt entry
  { v with
    entry := some world
    ticker := none
    errand := some (.stop a (.recording
      (Filing.start (world.pauseEvent a version.next m.wall pausedAt)) world pending)) }

def takenUp (v : View) (w : Wiring) (m : Moment) (order : SpawnOrder) (known entry : World)
    (t : Ticker) : View :=
  { v with
    entry := some
      (Manager.resumed order (known.planAt w.clock.tickInterval m.wall) entry)
    ticker := some t
    errand := none }

inductive Step (w : Wiring) (m : Moment) (a : WorldId) (v : View) : View → Prop where
  | askKnown {order : SpawnOrder} {known : World} (hworld : order.world = a)
    (herrand : v.errand = none) (hticker : v.ticker = none) (hentry : v.entry = some known)
    (haccepted : order.IsAccepted w) (hstatus : known.status ≠ .stopped) :
    Step w m a v { v with errand := some (.spawn order (.readingVersion known)) }
  | askUnknown {order : SpawnOrder} (hworld : order.world = a) (herrand : v.errand = none)
    (hticker : v.ticker = none) (hentry : v.entry = none) (haccepted : order.IsAccepted w) :
    Step w m a v { v with errand := some (.spawn order .readingHistory) }
  | create {order : SpawnOrder} (herrand : v.errand = some (.spawn order .readingHistory))
    (hhistory : restore (historyOf v.events) a = .ok none) :
    Step w m a v
      { v with
        errand := some (.spawn order (.creating (Filing.start (order.creation a 1 m.wall false)))) }
  | restore {order : SpawnOrder} {t : Timeline} {count : Nat}
    (herrand : v.errand = some (.spawn order .readingHistory)) (hworld : t.world = a)
    (hhistory : restore (historyOf v.events) a = .ok (some (t.toWorld, count))) :
    Step w m a v
      { v with
        entry := some t.toWorld
        errand := some (.spawn order (.readingVersion t.toWorld)) }
  | announce {order : SpawnOrder} {known : World}
    (herrand : v.errand = some (.spawn order (.readingVersion known)))
    (hannounce : w.clock.announceResume = true) :
    Step w m a v
      { v with
        errand := some (.spawn order (.announcing known (Filing.start (order.creation a
          ((EventLog.greatestVersion? v.events).getD 0).next m.wall true)))) }
  | takeUp {order : SpawnOrder} {known entry : World} {t : Ticker}
    (herrand : v.errand = some (.spawn order (.readingVersion known)))
    (hannounce : w.clock.announceResume = false) (hentry : v.entry = some entry)
    (hnew : Ticker.new? w.clock a order.dilation ((EventLog.greatestVersion? v.events).getD 0)
      entry.weatherSyncedAt (known.planAt w.clock.tickInterval m.wall) = some t) :
    Step w m a v (v.takenUp w m order known entry t)
  | takeUpAnnounced {order : SpawnOrder} {known entry : World} {filing : Filing} {t : Ticker}
    (herrand : v.errand = some (.spawn order (.announcing known filing)))
    (hfiled : filing.verdict = some (.ok ())) (hentry : v.entry = some entry)
    (hnew : Ticker.new? w.clock a order.dilation filing.event.version entry.weatherSyncedAt
      (known.planAt w.clock.tickInterval m.wall) = some t) :
    Step w m a v (v.takenUp w m order known entry t)
  | enroll {order : SpawnOrder} {filing : Filing} {t : Ticker}
    (herrand : v.errand = some (.spawn order (.creating filing)))
    (hfiled : filing.verdict = some (.ok ()))
    (hnew : Ticker.new? w.clock a order.dilation 1 Duration.zero none = some t) :
    Step w m a v
      { v with
        entry := some (World.starting a order.name order.dilation m.wall)
        ticker := some t
        errand := none }
  | fileCreation {order : SpawnOrder} {filing filing' : Filing} {events' : List Event}
    (herrand : v.errand = some (.spawn order (.creating filing)))
    (hfiles : filing.Files v.events filing' events') :
    Step w m a v
      { v with errand := some (.spawn order (.creating filing')), events := events' }
  | fileAnnouncement {order : SpawnOrder} {known : World} {filing filing' : Filing}
    {events' : List Event} (herrand : v.errand = some (.spawn order (.announcing known filing)))
    (hfiles : filing.Files v.events filing' events') :
    Step w m a v
      { v with errand := some (.spawn order (.announcing known filing')), events := events' }
  | filePause {world : World} {pending : Count} {filing filing' : Filing}
    {events' : List Event} (herrand : v.errand = some (.stop a (.recording filing world pending)))
    (hfiles : filing.Files v.events filing' events') :
    Step w m a v
      { v with errand := some (.stop a (.recording filing' world pending)), events := events' }
  | giveUp {errand : Errand} (herrand : v.errand = some errand)
    (hjoining : errand ≠ .stop a .joining) : Step w m a v { v with errand := none }
  | askStop {t : Ticker} (herrand : v.errand = none) (hticker : v.ticker = some t)
    (hstop : t.stop.isRaised = false) :
    Step w m a v
      { v with ticker := some t.requestStop, errand := some (.stop a .joining) }
  | pause {t : Ticker} {pending : Count} {entry : World}
    (herrand : v.errand = some (.stop a .joining)) (hticker : v.ticker = some t)
    (hphase : t.phase = .finished pending) (hentry : v.entry = some entry) :
    Step w m a v (v.paused w m a entry t.version pending)
  | breakDown {t : Ticker} {culprit : String} (herrand : v.errand = some (.stop a .joining))
    (hticker : v.ticker = some t) (hphase : t.phase = .crashed culprit) :
    Step w m a v { v with ticker := none, errand := some (.stop a .readingVersion) }
  | pauseBroken {entry : World} (herrand : v.errand = some (.stop a .readingVersion))
    (hentry : v.entry = some entry) :
    Step w m a v
      (v.paused w m a entry ((EventLog.greatestVersion? v.events).getD 0) 0)
  | goes {t t' : Ticker} {entry entry' : World} (hticker : v.ticker = some t)
    (hentry : v.entry = some entry) (hgoes : t.Goes w m entry t' entry') :
    Step w m a v { v with ticker := some t', entry := some entry' }
  | fileTick {t : Ticker} {cause : TickCause} {gameTime : Duration} {filing filing' : Filing}
    {events' : List Event} (hticker : v.ticker = some t)
    (hphase : t.phase = .recording cause gameTime filing)
    (hfiles : filing.Files v.events filing' events') :
    Step w m a v
      { v with
        ticker := some { t with phase := .recording cause gameTime filing' }
        events := events' }
  | fileResumption {t : Ticker} {run : CatchUpRun} {filing filing' : Filing}
    {events' : List Event} (hticker : v.ticker = some t)
    (hphase : t.phase = .resuming run filing)
    (hfiles : filing.Files v.events filing' events') :
    Step w m a v
      { v with ticker := some { t with phase := .resuming run filing' }, events := events' }

/-! ### Coherence -/

def Supports (w : Wiring) (a : WorldId) (v : View) : Errand → Prop
  | .spawn order stage =>
    order.world = a ∧ order.IsAccepted w ∧ v.ticker = none ∧
      match stage with
      | .readingHistory => v.entry = none
      | .creating filing => v.entry = none ∧ filing.event.aggregateId = a.text
      | .readingVersion _ => v.entry ≠ none
      | .announcing _ filing => v.entry ≠ none ∧ filing.event.aggregateId = a.text
  | .stop world stage =>
    world = a ∧ v.entry ≠ none ∧
      match stage with
      | .joining => ∃ t, v.ticker = some t ∧ t.stop.isRaised = true
      | .readingVersion => v.ticker = none
      | .recording filing _ _ => v.ticker = none ∧ filing.event.aggregateId = a.text
  | .over _ => False

/-- The parts of a view fit together: the entry is of its world and carries a mark exactly when it
is paused; a ticker has an entry and is asked to stop exactly while a stop waits for it. -/
structure Coherent (w : Wiring) (a : WorldId) (v : View) : Prop where
  entry : ∀ e, v.entry = some e → e.id = a ∧ e.markerFits = true
  ticker : ∀ t, v.ticker = some t → t.world = a ∧ v.entry ≠ none ∧
    (∀ filing, t.filing? = some filing → filing.event.aggregateId = a.text) ∧
    (v.errand = none ∧ t.stop.isRaised = false ∨
      v.errand = some (.stop a .joining) ∧ t.stop.isRaised = true)
  errand : ∀ e, v.errand = some e → v.Supports w a e

theorem supports_of_ticker {w : Wiring} {a : WorldId} {v : View} {errand : Errand}
    (h : v.Supports w a errand) {t t' : Ticker} (hticker : v.ticker = some t)
    (hstop : t'.stop = t.stop) {entry' : Option World} (hentry : v.entry ≠ none → entry' ≠ none)
    {events' : List Event} :
    (View.mk entry' (some t') v.errand events').Supports w a errand := by
  match errand with
  | .over _ => exact h
  | .spawn _ _ =>
    obtain ⟨-, -, hnone, -⟩ := h
    simp [hticker] at hnone
  | .stop _ .joining =>
    obtain ⟨hworld, hne, t₀, ht₀, hraised⟩ := h
    rw [hticker] at ht₀
    cases ht₀
    exact ⟨hworld, hentry hne, t', rfl, by rw [hstop, hraised]⟩
  | .stop _ .readingVersion | .stop _ (.recording ..) =>
    obtain ⟨-, -, hstage⟩ := h
    simp [hticker] at hstage

namespace Coherent

variable {w : Wiring} {m : Moment} {a : WorldId} {v v' : View}

theorem ticker_eq_none (h : v.Coherent w a) {order : SpawnOrder} {stage : SpawnStage}
    (herrand : v.errand = some (.spawn order stage)) : v.ticker = none :=
  (h.errand _ herrand).2.2.1

theorem id_eq (h : v.Coherent w a) {entry : World} (hentry : v.entry = some entry) :
    entry.id = a := (h.entry entry hentry).1

theorem markerFits (h : v.Coherent w a) {entry : World} (hentry : v.entry = some entry) :
    entry.markerFits = true := (h.entry entry hentry).2

theorem world_eq (h : v.Coherent w a) {t : Ticker} (hticker : v.ticker = some t) : t.world = a :=
  (h.ticker t hticker).1

theorem errand_eq_joining (h : v.Coherent w a) {t : Ticker} (hticker : v.ticker = some t)
    {errand : Errand} (herrand : v.errand = some errand) : errand = .stop a .joining := by
  obtain ⟨-, -, -, ⟨hnone, -⟩ | ⟨hjoining, -⟩⟩ := h.ticker t hticker
  · rw [hnone] at herrand
    cases herrand
  · rw [hjoining] at herrand
    exact (Option.some.inj herrand).symm

theorem ticker_eq_none_of_ne (h : v.Coherent w a) {errand : Errand}
    (herrand : v.errand = some errand) (hne : errand ≠ .stop a .joining) : v.ticker = none := by
  cases hticker : v.ticker with
  | none => rfl
  | some t => exact absurd (h.errand_eq_joining hticker herrand) hne

end Coherent

theorem coherent_paused {w : Wiring} {m : Moment} {a : WorldId} {v : View} {entry : World}
    (hid : entry.id = a) (version pending : Count) :
    (v.paused w m a entry version pending).Coherent w a where
  entry := by
    intro e heq
    cases heq
    exact ⟨hid, World.markerFits_paused _ _⟩
  ticker := by
    intro t heq
    cases heq
  errand := by
    intro e heq
    cases heq
    exact ⟨rfl, Option.some_ne_none _, rfl, rfl⟩

theorem world_of_new? {clock : ClockSettings} {a : WorldId} {dilation : Binary64}
    {version : Count} {weatherSyncedAt : Duration} {plan : Option CatchUpPlan} {t : Ticker}
    (h : Ticker.new? clock a dilation version weatherSyncedAt plan = some t) :
    t.world = a ∧ t.filing? = none ∧ t.stop.isRaised = false := by
  obtain ⟨delta, -, rfl⟩ := Option.map_eq_some_iff.mp h
  exact ⟨rfl, rfl, rfl⟩

theorem coherent_takenUp {w : Wiring} {m : Moment} {a : WorldId} {v : View} {order : SpawnOrder}
    {known entry : World} {version : Count} {weatherSyncedAt : Duration}
    {plan : Option CatchUpPlan} {t : Ticker} (hid : entry.id = a)
    (hnew : Ticker.new? w.clock a order.dilation version weatherSyncedAt plan = some t) :
    (v.takenUp w m order known entry t).Coherent w a where
  entry := by
    intro e heq
    cases heq
    exact ⟨hid, World.markerFits_resumed _ _ _⟩
  ticker := by
    intro t' heq
    cases heq
    obtain ⟨hworld, hfiling, hstop⟩ := world_of_new? hnew
    exact ⟨hworld, Option.some_ne_none _, fun filing hsome => by simp [hfiling] at hsome,
      .inl ⟨rfl, hstop⟩⟩
  errand := by
    intro e heq
    cases heq

/-- A view without a ticker whose errand goes on. -/
theorem Coherent.onErrand {w : Wiring} {a : WorldId} {v : View} (hv : v.Coherent w a)
    (hticker : v.ticker = none) {errand : Errand} {events' : List Event}
    (hsupports : (View.mk v.entry v.ticker (some errand) events').Supports w a errand) :
    (View.mk v.entry v.ticker (some errand) events').Coherent w a where
  entry := hv.entry
  ticker := by
    intro t ht
    simp [hticker] at ht
  errand := by
    intro e heq
    cases heq
    exact hsupports

/-- A ticker waits for an append, and the log has seen it. -/
theorem Coherent.onTicker {w : Wiring} {a : WorldId} {v : View} (hv : v.Coherent w a)
    {t t' : Ticker} {f f' : Filing} {events' : List Event} (hticker : v.ticker = some t)
    (hbefore : t.filing? = some f) (hworld : t'.world = t.world) (hstop : t'.stop = t.stop)
    (hafter : t'.filing? = some f') (hfiles : f.Files v.events f' events') :
    (View.mk v.entry (some t') v.errand events').Coherent w a := by
  obtain ⟨hself, hentry, hfiling, hraised⟩ := hv.ticker t hticker
  refine ⟨hv.entry, ?_, fun e herrand => ?_⟩
  · intro t'' heq
    cases heq
    refine ⟨hworld.trans hself, hentry, fun g hg => ?_, by rwa [hstop]⟩
    cases hafter.symm.trans hg
    rw [hfiles.event_eq, hfiling f hbefore]
  · exact supports_of_ticker (hv.errand e herrand) hticker hstop id

/-- A step keeps the parts of a view fitting together. -/
theorem Step.coherent {w : Wiring} {m : Moment} {a : WorldId} {v v' : View}
    (h : v.Step w m a v') (hv : v.Coherent w a) : v'.Coherent w a := by
  cases h with
  | askKnown hworld herrand hticker hentry haccepted hstatus =>
    exact hv.onErrand hticker ⟨hworld, haccepted, hticker, by simp [hentry]⟩
  | askUnknown hworld herrand hticker hentry haccepted =>
    exact hv.onErrand hticker ⟨hworld, haccepted, hticker, hentry⟩
  | create herrand hhistory =>
    obtain ⟨hworld, haccepted, hticker, hentry⟩ := hv.errand _ herrand
    exact hv.onErrand hticker ⟨hworld, haccepted, hticker, hentry, rfl⟩
  | restore herrand hworldT hhistory =>
    obtain ⟨hworld, haccepted, hticker, -⟩ := hv.errand _ herrand
    refine ⟨?_, fun t ht => by simp [hticker] at ht, ?_⟩
    · intro e heq
      cases heq
      exact ⟨hworldT, Timeline.markerFits_toWorld _⟩
    · intro e heq
      cases heq
      exact ⟨hworld, haccepted, hticker, Option.some_ne_none _⟩
  | announce herrand hannounce =>
    obtain ⟨hworld, haccepted, hticker, hentry⟩ := hv.errand _ herrand
    exact hv.onErrand hticker ⟨hworld, haccepted, hticker, hentry, rfl⟩
  | takeUp herrand hannounce hentry hnew => exact coherent_takenUp (hv.id_eq hentry) hnew
  | takeUpAnnounced herrand hfiled hentry hnew => exact coherent_takenUp (hv.id_eq hentry) hnew
  | @enroll order filing t herrand hfiled hnew =>
    refine ⟨?_, ?_, by rintro e ⟨⟩⟩
    · intro e heq
      cases heq
      exact ⟨rfl, World.markerFits_starting _ _ _ _⟩
    · intro t' heq
      cases heq
      obtain ⟨hworld, hfiling, hstop⟩ := world_of_new? hnew
      exact ⟨hworld, Option.some_ne_none _, fun filing hsome => by simp [hfiling] at hsome,
        .inl ⟨rfl, hstop⟩⟩
  | fileCreation herrand hfiles | fileAnnouncement herrand hfiles =>
    obtain ⟨hworld, haccepted, hticker, hentry, haggregate⟩ := hv.errand _ herrand
    exact hv.onErrand hticker
      ⟨hworld, haccepted, hticker, hentry, by rw [hfiles.event_eq, haggregate]⟩
  | filePause herrand hfiles =>
    obtain ⟨hworld, hentry, hticker, haggregate⟩ := hv.errand _ herrand
    exact hv.onErrand hticker ⟨hworld, hentry, hticker, by rw [hfiles.event_eq, haggregate]⟩
  | giveUp herrand hjoining =>
    refine ⟨hv.entry, fun t ht => ?_, by rintro e ⟨⟩⟩
    obtain ⟨-, -, -, ⟨hnone, -⟩ | ⟨hstop, -⟩⟩ := hv.ticker t ht
    · simp [hnone] at herrand
    · rw [herrand] at hstop
      exact absurd (Option.some.inj hstop) hjoining
  | askStop herrand hticker hstop =>
    obtain ⟨hworld, hentry, hfiling, -⟩ := hv.ticker _ hticker
    refine ⟨hv.entry, ?_, ?_⟩
    · intro t heq
      cases heq
      exact ⟨hworld, hentry, hfiling, .inr ⟨rfl, rfl⟩⟩
    · intro e heq
      cases heq
      exact ⟨rfl, hentry, _, rfl, rfl⟩
  | pause herrand hticker hphase hentry => exact coherent_paused (hv.id_eq hentry) _ _
  | breakDown herrand hticker hphase =>
    refine ⟨hv.entry, by rintro t ⟨⟩, ?_⟩
    intro e heq
    cases heq
    exact ⟨rfl, (hv.ticker _ hticker).2.1, rfl⟩
  | pauseBroken herrand hentry => exact coherent_paused (hv.id_eq hentry) _ _
  | @goes t t' entry entry' hticker hentry hgoes =>
    obtain ⟨hworld, -, -, hstop⟩ := hv.ticker t hticker
    obtain ⟨hid, hmarker⟩ := hgoes.entry_fits (hv.id_eq hentry) (hv.markerFits hentry)
    refine ⟨by rintro e ⟨⟩; exact ⟨hid, hmarker⟩, ?_, ?_⟩
    · intro t'' heq
      cases heq
      refine ⟨by rw [hgoes.world_eq, hworld], Option.some_ne_none _, fun filing hfiling => ?_, ?_⟩
      · rw [hgoes.aggregateId_eq hfiling, hworld]
      · rw [hgoes.stop_eq]
        exact hstop
    · intro e herrand
      exact supports_of_ticker (hv.errand e herrand) hticker hgoes.stop_eq
        fun _ => Option.some_ne_none _
  | fileTick hticker hphase hfiles | fileResumption hticker hphase hfiles =>
    exact hv.onTicker hticker (by rw [Ticker.filing?, hphase]) rfl rfl rfl hfiles

/-- An update from outside keeps the parts of a view fitting together. -/
theorem Coherent.update {w : Wiring} {a : WorldId} {v : View} (hv : v.Coherent w a)
    {entry new : World} (hentry : v.entry = some entry)
    (hregression : entry.regression? new = none) :
    ({ v with entry := some new } : View).Coherent w a := by
  obtain ⟨hid, -, -, hmarker⟩ := World.regression?_eq_none.mp hregression
  refine ⟨?_, fun t hticker => ?_, fun e herrand => ?_⟩
  · intro e heq
    cases heq
    exact ⟨by rw [hid, hv.id_eq hentry], hmarker⟩
  · obtain ⟨hworld, -, hrest⟩ := hv.ticker t hticker
    exact ⟨hworld, Option.some_ne_none _, hrest⟩
  · have hsupports := hv.errand e herrand
    match e with
    | .over _ => exact hsupports
    | .spawn _ stage =>
      obtain ⟨hworld, haccepted, hticker, hstage⟩ := hsupports
      cases stage with
      | readingHistory => simp [hentry] at hstage
      | creating filing => simp [hentry] at hstage
      | readingVersion known => exact ⟨hworld, haccepted, hticker, Option.some_ne_none _⟩
      | announcing known filing =>
        exact ⟨hworld, haccepted, hticker, Option.some_ne_none _, hstage.2⟩
    | .stop _ _ =>
      obtain ⟨hworld, -, hstage⟩ := hsupports
      exact ⟨hworld, Option.some_ne_none _, hstage⟩

end View

end WorldClock
