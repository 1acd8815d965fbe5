import WorldClock.Proofs.Manager.Courses

/-!
# The history that managers write

Whoever writes about a world holds the greatest version that was stored or is about to be stored:
its ticker, or the append that its errand waits for. So an event that the log takes is newer than
all before it, and the history of a world stands in the order of its versions. It starts with a
creation, and every event of it can be read (`View.Chronicled`).
-/

namespace WorldClock

/-- The append that an errand waits for. -/
def Errand.filing? : Errand → Option Filing
  | .spawn _ (.creating filing) | .spawn _ (.announcing _ filing)
  | .stop _ (.recording filing _ _) => some filing
  | _ => none

/-- An event that a manager or a ticker makes of details that can be read. -/
def Event.IsRecord (e : Event) (a : WorldId) : Prop :=
  ∃ version now d, d.IsReadable ∧ e = Event.ofWorld a version now d

theorem Event.IsRecord.tells {e : Event} {a : WorldId} (h : e.IsRecord a) : ∃ d, e.Tells a d := by
  obtain ⟨version, now, d, hreadable, rfl⟩ := h
  obtain ⟨d', -, htells⟩ := Event.tells_ofWorld a version now hreadable
  exact ⟨d', htells⟩

namespace View

/-- The history of a world is in order and readable, and whoever may add to it next is ahead of
it. -/
structure Chronicled (a : WorldId) (v : View) : Prop where
  ascends : Ascends v.events
  story : v.events ≠ [] → ∃ t, Story a v.events t
  entry : v.entry ≠ none → v.events ≠ []
  ticker : ∀ t, v.ticker = some t → (∀ e ∈ v.events, e.version ≤ t.version) ∧
    ∀ filing, t.filing? = some filing →
      filing.event.version = t.version ∧ filing.event.IsRecord a
  errand : ∀ errand filing, v.errand = some errand → errand.filing? = some filing →
    (∀ e ∈ v.events, e.version ≤ filing.event.version) ∧ filing.event.IsRecord a
  creation : ∀ order filing, v.errand = some (.spawn order (.creating filing)) →
    ∃ now, filing.event = order.creation a 1 now false ∧
      (filing.verdict = none → v.events = []) ∧
      (filing.verdict = some (.ok ()) → v.events = [filing.event])

end View

/-- What becomes of a history in order when the log sees an append that is ahead of it. -/
theorem Filing.Files.ascends {f f' : Filing} {events events' : List Event}
    (h : f.Files events f' events') (hascends : Ascends events)
    (hahead : ∀ e ∈ events, e.version ≤ f.event.version) : Ascends events' := by
  obtain rfl | ⟨rfl, -, hfault, hfresh⟩ := h.events_eq
  · exact hascends
  · refine ascends_cons.mpr ⟨⟨Event.version_ne_zero_of_fault? hfault, fun e he => ?_⟩, hascends⟩
    exact UInt64.lt_of_le_of_ne (hahead e he) (hfresh e he)

theorem Filing.Files.ahead {f f' : Filing} {events events' : List Event}
    (h : f.Files events f' events') (hahead : ∀ e ∈ events, e.version ≤ f.event.version) :
    ∀ e ∈ events', e.version ≤ f.event.version := by
  obtain rfl | ⟨rfl, -⟩ := h.events_eq
  · exact hahead
  · intro e he
    obtain rfl | he := List.mem_cons.mp he
    · exact UInt64.le_refl _
    · exact hahead e he

theorem Filing.Files.ne_nil {f f' : Filing} {events events' : List Event}
    (h : f.Files events f' events') (hne : events ≠ []) : events' ≠ [] := by
  obtain rfl | ⟨rfl, -⟩ := h.events_eq
  · exact hne
  · exact List.cons_ne_nil _ _

/-- A readable history goes on with an event that can be read. -/
theorem Filing.Files.story {f f' : Filing} {events events' : List Event} {a : WorldId}
    (h : f.Files events f' events') (hrecord : f.event.IsRecord a)
    (hstory : ∃ t, Story a events t) : ∃ t, Story a events' t := by
  obtain rfl | ⟨rfl, -⟩ := h.events_eq
  · exact hstory
  · obtain ⟨t, hstory⟩ := hstory
    obtain ⟨d, htells⟩ := hrecord.tells
    exact ⟨_, hstory.next htells⟩

/-- A history whose latest event the log has just been given, if it took it. -/
theorem Filing.Files.story_cases {f f' : Filing} {events events' : List Event} {a : WorldId}
    {t' : Timeline} {d : Details} (h : f.Files events f' events')
    (hstory : ∃ t, Story a events t) (htells : f.event.Tells a d) (h' : Story a events' t') :
    Story a events t' ∧ f' = f ∨ Story a events t' ∧ f'.verdict ≠ some (.ok ()) ∨
      ∃ t, Story a events t ∧ t' = t.after f.event d := by
  cases h with
  | again => exact .inl ⟨h', rfl⟩
  | stored =>
    obtain ⟨t, ht⟩ := hstory
    exact .inr (.inr ⟨t, ht, ht.cons_eq htells h'⟩)
  | refused error => exact .inr (.inl ⟨h', by rintro ⟨⟩⟩)

theorem SpawnOrder.isFinite_dilation {order : SpawnOrder} {w : Wiring} (h : order.IsAccepted w) :
    order.dilation.isFinite = true :=
  Binary64.isFinite_of_tickDelta? h

theorem SpawnOrder.isRecord_creation {order : SpawnOrder} {w : Wiring} (h : order.IsAccepted w)
    (a : WorldId) (version : Count) (now : Instant) (resumed : Bool) :
    (order.creation a version now resumed).IsRecord a :=
  ⟨version, now, .created ⟨order.name, order.dilation, resumed⟩, order.isFinite_dilation h, rfl⟩

theorem World.isRecord_pauseEvent (world : World) (a : WorldId) (version : Count)
    (now pausedAt : Instant) : (world.pauseEvent a version now pausedAt).IsRecord a :=
  ⟨version, now, .paused ⟨world.tickCount, world.gameTime.toNanoCount, some pausedAt,
    world.weatherSyncedAt.toNanoCount⟩, trivial, rfl⟩

theorem World.tells_pauseEvent (world : World) (a : WorldId) (version : Count)
    (now pausedAt : Instant) : (world.pauseEvent a version now pausedAt).Tells a (.paused
      ⟨world.tickCount, world.gameTime.toNanoCount, some pausedAt,
        world.weatherSyncedAt.toNanoCount⟩) :=
  Event.tells_ofWorld_self a version now (by rintro ⟨⟩)

theorem SpawnOrder.tells_creation {order : SpawnOrder} {w : Wiring} (h : order.IsAccepted w)
    (a : WorldId) (version : Count) (now : Instant) (resumed : Bool) :
    ∃ dilation, (order.creation a version now resumed).Tells a
      (.created ⟨order.name, dilation, resumed⟩) := by
  have hreadable : (Details.created ⟨order.name, order.dilation, resumed⟩).IsReadable :=
    order.isFinite_dilation h
  obtain ⟨d', hagrees, htells⟩ := Event.tells_ofWorld a version now hreadable
  cases d' with
  | created d =>
    obtain ⟨hname, hresumed⟩ := hagrees
    obtain ⟨name, dilation, resumed'⟩ := d
    simp only at hname hresumed
    subst hname hresumed
    exact ⟨dilation, htells⟩
  | ticked d | paused d | resumed d => cases hagrees

/-- The first event of a world starts its story. -/
theorem SpawnOrder.story_creation {order : SpawnOrder} {w : Wiring} (h : order.IsAccepted w)
    (a : WorldId) (version : Count) (now : Instant) (resumed : Bool) :
    ∃ dilation, Story a [order.creation a version now resumed]
      (Timeline.starting a (order.creation a version now resumed)
        ⟨order.name, dilation, resumed⟩) := by
  obtain ⟨dilation, htells⟩ := order.tells_creation h a version now resumed
  exact ⟨dilation, .creation htells⟩

namespace View

variable {w : Wiring} {m : Moment} {a : WorldId} {v v' : View}

/-- The view of a world whose ticker and errand are about to write nothing. -/
theorem Chronicled.idle (hv : v.Chronicled a) {entry : Option World}
    (hentry : entry ≠ none → v.events ≠ []) {errand : Option Errand}
    (herrand : ∀ e, errand = some e → e.filing? = none) {ticker : Option Ticker}
    (hticker : ∀ t, ticker = some t → t.filing? = none ∧ ∀ e ∈ v.events, e.version ≤ t.version) :
    (View.mk entry ticker errand v.events).Chronicled a where
  ascends := hv.ascends
  story := hv.story
  entry := hentry
  ticker t ht := by
    obtain ⟨hfiling, hahead⟩ := hticker t ht
    exact ⟨hahead, fun filing hsome => by simp [hfiling] at hsome⟩
  errand e filing he hsome := by simp [herrand e he] at hsome
  creation order filing he := by
    have hnone := herrand _ he
    cases hnone

/-- The view of a world whose errand has begun an append. -/
theorem Chronicled.writing (hv : v.Chronicled a) {entry : Option World}
    (hentry : entry ≠ none → v.events ≠ []) {errand : Errand} {filing : Filing}
    (hfiling : errand.filing? = some filing)
    (hcreation : ∀ order f, errand ≠ .spawn order (.creating f))
    (hahead : ∀ e ∈ v.events, e.version ≤ filing.event.version)
    (hrecord : filing.event.IsRecord a) :
    (View.mk entry none (some errand) v.events).Chronicled a where
  ascends := hv.ascends
  story := hv.story
  entry := hentry
  ticker t ht := by cases ht
  errand e f he hsome := by
    cases he
    rw [hfiling] at hsome
    cases hsome
    exact ⟨hahead, hrecord⟩
  creation order f he := by
    cases he
    exact absurd rfl (hcreation order f)

theorem chronicled_paused (hv : v.Chronicled a) {entry : World} (hne : v.events ≠ [])
    {version : Count} (hahead : ∀ e ∈ v.events, e.version ≤ version) (pending : Count) :
    (v.paused w m a entry version pending).Chronicled a := by
  refine hv.writing (fun _ => hne) rfl (by rintro order f ⟨⟩) (fun e he => ?_)
    (World.isRecord_pauseEvent _ _ _ _ _)
  exact UInt64.le_trans (hahead e he) (Count.le_next version)

theorem chronicled_takenUp (hv : v.Chronicled a) {order : SpawnOrder} {known entry : World}
    (hne : v.events ≠ []) {version : Count} (hahead : ∀ e ∈ v.events, e.version ≤ version)
    {weatherSyncedAt : Duration} {plan : Option CatchUpPlan} {t : Ticker}
    (hnew : Ticker.new? w.clock a order.dilation version weatherSyncedAt plan = some t) :
    (v.takenUp w m order known entry t).Chronicled a := by
  refine hv.idle (fun _ => hne) (by rintro e ⟨⟩) ?_
  intro t' heq
  cases heq
  obtain ⟨delta, -, rfl⟩ := Option.map_eq_some_iff.mp hnew
  exact ⟨rfl, hahead⟩

/-- The view of a world whose history the log has been given an event for. -/
theorem Chronicled.filed (hv : v.Chronicled a) {f f' : Filing} {events' : List Event}
    (hfiles : f.Files v.events f' events') (hrecord : f.event.IsRecord a)
    (hahead : ∀ e ∈ v.events, e.version ≤ f.event.version) (hne : v.events ≠ [])
    {ticker : Option Ticker} {errand : Option Errand}
    (hticker : ∀ t, ticker = some t → t.version = f.event.version ∧ t.filing? = some f')
    (herrand : ∀ e g, errand = some e → e.filing? = some g → g = f')
    (hcreation : ∀ order g, errand ≠ some (.spawn order (.creating g))) :
    (View.mk v.entry ticker errand events').Chronicled a where
  ascends := hfiles.ascends hv.ascends hahead
  story _ := hfiles.story hrecord (hv.story hne)
  entry _ := hfiles.ne_nil hne
  ticker t ht := by
    obtain ⟨hversion, hfiling⟩ := hticker t ht
    refine ⟨fun e he => hversion ▸ hfiles.ahead hahead e he, fun g hg => ?_⟩
    rw [hfiling] at hg
    cases hg
    rw [hfiles.event_eq]
    exact ⟨hversion.symm, hrecord⟩
  errand e g he hg := by
    rw [herrand e g he hg, hfiles.event_eq]
    exact ⟨hfiles.ahead hahead, hrecord⟩
  creation order g he := absurd he (hcreation order g)

theorem Chronicled.errandFiled (hv : v.Chronicled a) {e e' : Errand} {f f' : Filing}
    {events' : List Event} (herrand : v.errand = some e) (hbefore : e.filing? = some f)
    (hafter : e'.filing? = some f') (hcreation : ∀ order g, e' ≠ .spawn order (.creating g))
    (hfiles : f.Files v.events f' events') (hne : v.events ≠ []) :
    (View.mk v.entry none (some e') events').Chronicled a := by
  obtain ⟨hahead, hrecord⟩ := hv.errand e f herrand hbefore
  refine hv.filed hfiles hrecord hahead hne (by rintro t ⟨⟩) ?_ ?_
  · intro e'' g he hg
    cases he
    exact Option.some.inj (hg.symm.trans hafter)
  · intro order g he
    exact hcreation order g (Option.some.inj he)

theorem Chronicled.tickerFiled (hv : v.Chronicled a) (hc : v.Coherent w a) {t t' : Ticker}
    {f f' : Filing} {events' : List Event} (hticker : v.ticker = some t)
    (hbefore : t.filing? = some f) (hversion : t'.version = t.version)
    (hafter : t'.filing? = some f') (hfiles : f.Files v.events f' events') :
    (View.mk v.entry (some t') v.errand events').Chronicled a := by
  obtain ⟨-, hentry, -, -⟩ := hc.ticker t hticker
  obtain ⟨hahead, hfilings⟩ := hv.ticker t hticker
  obtain ⟨hsame, hrecord⟩ := hfilings f hbefore
  refine hv.filed hfiles hrecord (by rwa [hsame]) (hv.entry hentry) ?_ ?_ ?_
  · intro t'' heq
    cases heq
    exact ⟨hversion.trans hsame.symm, hafter⟩
  · intro e g he hg
    rw [hc.errand_eq_joining hticker he] at hg
    cases hg
  · intro order g he
    cases hc.errand_eq_joining hticker he

/-- Only a world without a history cannot be restored. -/
theorem Chronicled.restore_eq_none_iff (hv : v.Chronicled a) :
    restore (historyOf v.events) a = .ok none ↔ v.events = [] := by
  constructor
  · intro hhistory
    refine Decidable.byContradiction fun hne => ?_
    obtain ⟨t, hstory⟩ := hv.story hne
    rw [historyOf_eq hv.ascends, restore_eq hstory] at hhistory
    cases hhistory
  · intro hempty
    rw [hempty, historyOf_eq ascends_nil, List.reverse_nil, restore_nil]

theorem chronicled_creating (hv : v.Chronicled a) {order : SpawnOrder}
    (haccepted : order.IsAccepted w) (hticker : v.ticker = none) (hempty : v.events = [])
    (now : Instant) :
    (View.mk v.entry v.ticker (some (.spawn order (.creating (Filing.start
      (order.creation a 1 now false))))) v.events).Chronicled a := by
  refine ⟨hv.ascends, hv.story, hv.entry, by simp [hticker], ?_, ?_⟩
  · intro e filing he hfiling
    obtain rfl := Option.some.inj he
    obtain rfl := Option.some.inj hfiling
    exact ⟨by simp [hempty], order.isRecord_creation haccepted a 1 now false⟩
  · intro order' filing he
    obtain ⟨rfl, hstage⟩ := Errand.spawn.inj (Option.some.inj he)
    obtain rfl := SpawnStage.creating.inj hstage
    exact ⟨now, rfl, fun _ => hempty, fun hverdict => nomatch hverdict⟩

/-- The log has been given the first event of a world. -/
theorem chronicled_founded (hc : v.Coherent w a) (hv : v.Chronicled a)
    {order : SpawnOrder} {filing filing' : Filing} {events' : List Event}
    (herrand : v.errand = some (.spawn order (.creating filing)))
    (hfiles : filing.Files v.events filing' events') :
    (View.mk v.entry v.ticker (some (.spawn order (.creating filing'))) events').Chronicled a := by
  obtain ⟨-, haccepted, hticker, hentry, -⟩ := hc.errand _ herrand
  obtain ⟨hahead, hrecord⟩ := hv.errand _ _ herrand rfl
  obtain ⟨now, hevent, hnone, hstored⟩ := hv.creation order filing herrand
  refine ⟨hfiles.ascends hv.ascends hahead, fun _ => ?_, by simp [hentry], by simp [hticker],
    ?_, ?_⟩
  · obtain rfl | ⟨rfl, hverdict, -⟩ := hfiles.events_eq
    · exact hv.story ‹_›
    · -- The log had nothing about the world, so the event that it took is the whole history.
      obtain ⟨dilation, hstory⟩ := order.story_creation haccepted a 1 now false
      rw [hnone hverdict, hevent]
      exact ⟨_, hstory⟩
  · intro e g heq hsame
    cases heq
    cases hsame
    rw [hfiles.event_eq]
    exact ⟨hfiles.ahead hahead, hrecord⟩
  · intro order' g heq
    cases heq
    refine ⟨now, by rw [hfiles.event_eq, hevent], fun hverdict => ?_, fun hverdict => ?_⟩
    · cases hfiles with
      | again hdone => exact absurd hverdict hdone
      | stored => cases hverdict
      | refused => cases hverdict
    · cases hfiles with
      | again hdone => exact hstored hverdict
      | stored hfresh => rw [hnone hfresh]
      | refused => cases hverdict

/-- A step keeps the history of a world in order and readable. -/
theorem Step.chronicled (hc : v.Coherent w a) (hv : v.Chronicled a) (h : v.Step w m a v') :
    v'.Chronicled a := by
  have hlatest := EventLog.le_greatestVersion? v.events
  cases h with
  | askKnown hworld herrand hticker hentry haccepted hstatus =>
    exact hv.idle hv.entry (by rintro e ⟨⟩; rfl) (by simp [hticker])
  | askUnknown hworld herrand hticker hentry haccepted =>
    exact hv.idle hv.entry (by rintro e ⟨⟩; rfl) (by simp [hticker])
  | create herrand hhistory =>
    obtain ⟨-, haccepted, hticker, -⟩ := hc.errand _ herrand
    exact chronicled_creating hv haccepted hticker (hv.restore_eq_none_iff.mp hhistory) m.wall
  | restore herrand hworld hhistory =>
    have hne : v.events ≠ [] := by
      intro hempty
      rw [hv.restore_eq_none_iff.mpr hempty] at hhistory
      cases hhistory
    exact hv.idle (fun _ => hne) (by rintro e ⟨⟩; rfl) (by simp [hc.ticker_eq_none herrand])
  | @announce order known herrand hannounce =>
    obtain ⟨-, haccepted, hticker, hentry⟩ := hc.errand _ herrand
    rw [hticker]
    refine hv.writing hv.entry rfl (by rintro order f ⟨⟩) (fun e he => ?_)
      (order.isRecord_creation haccepted a _ m.wall true)
    exact UInt64.le_trans (hlatest e he) (Count.le_next _)
  | takeUp herrand hannounce hentry hnew =>
    exact chronicled_takenUp hv (hv.entry (by simp [hentry])) hlatest hnew
  | takeUpAnnounced herrand hfiled hentry hnew =>
    exact chronicled_takenUp hv (hv.entry (by simp [hentry])) (hv.errand _ _ herrand rfl).1 hnew
  | @enroll order filing t herrand hfiled hnew =>
    obtain ⟨now, hevent, -, hstored⟩ := hv.creation order filing herrand
    obtain ⟨delta, -, rfl⟩ := Option.map_eq_some_iff.mp hnew
    refine hv.idle (by simp [hstored hfiled]) (by rintro e ⟨⟩) ?_
    intro t' heq
    cases heq
    refine ⟨rfl, fun e he => ?_⟩
    rw [hstored hfiled, List.mem_singleton] at he
    rw [he, hevent]
    exact UInt64.le_refl _
  | fileCreation herrand hfiles => exact chronicled_founded hc hv herrand hfiles
  | fileAnnouncement herrand hfiles =>
    obtain ⟨-, -, hticker, hentry, -⟩ := hc.errand _ herrand
    rw [hticker]
    exact hv.errandFiled herrand rfl rfl (by rintro order g ⟨⟩) hfiles (hv.entry hentry)
  | filePause herrand hfiles =>
    obtain ⟨-, hentry, hticker, -⟩ := hc.errand _ herrand
    rw [hticker]
    exact hv.errandFiled herrand rfl rfl (by rintro order g ⟨⟩) hfiles (hv.entry hentry)
  | giveUp herrand hjoining =>
    exact ⟨hv.ascends, hv.story, hv.entry, hv.ticker, by rintro e g ⟨⟩, by rintro order g ⟨⟩⟩
  | @askStop t herrand hticker hstop =>
    refine ⟨hv.ascends, hv.story, hv.entry, ?_, by rintro e g ⟨⟩ ⟨⟩, by rintro order g ⟨⟩⟩
    intro t' heq
    cases heq
    exact hv.ticker t hticker
  | pause herrand hticker hphase hentry =>
    exact chronicled_paused hv (hv.entry (by simp [hentry])) (hv.ticker _ hticker).1 _
  | breakDown herrand hticker hphase =>
    exact hv.idle hv.entry (by rintro e ⟨⟩; rfl) (by rintro t ⟨⟩)
  | pauseBroken herrand hentry =>
    exact chronicled_paused hv (hv.entry (by simp [hentry])) hlatest _
  | @goes t t' entry entry' hticker hentry hgoes =>
    obtain ⟨hahead, -⟩ := hv.ticker t hticker
    have hworld := hc.world_eq hticker
    refine ⟨hv.ascends, hv.story, fun _ => hv.entry (by simp [hentry]), ?_, hv.errand, hv.creation⟩
    intro t'' heq
    cases heq
    refine ⟨fun e he => UInt64.le_trans (hahead e he) hgoes.version_le, fun filing hfiling => ?_⟩
    obtain ⟨d, hkind, rfl⟩ := hgoes.filing_eq hfiling
    exact ⟨rfl, t'.version, m.wall, d, Details.isReadable_of_kind hkind, by rw [hworld]; rfl⟩
  | fileTick hticker hphase hfiles =>
    exact hv.tickerFiled hc hticker (by rw [Ticker.filing?, hphase]) rfl rfl hfiles
  | fileResumption hticker hphase hfiles =>
    exact hv.tickerFiled hc hticker (by rw [Ticker.filing?, hphase]) rfl rfl hfiles

theorem chronicled_afterDeath (hv : v.Chronicled a) : v.afterDeath.Chronicled a :=
  hv.idle (by simp) (by rintro e ⟨⟩) (by rintro t ⟨⟩)

end View

end WorldClock
