import WorldClock.Proofs.Manager.Fleet
import WorldClock.Proofs.Manager.Services

/-!
# Every history can be restored

An event with version 1 is made only by the spawn that has found no history, and it tells a
creation. Whoever writes about a world otherwise has seen that event in the log before, and counts
on from it. So the first event of every history is a creation, whoever has written the others and in
which order, and a world with a history can be restored (`Fleet.restorable`).

No process has to be the only one that writes about a world for this, nor need the events of a
history come in in the order of their versions.
-/

namespace WorldClock

/-! ### Rooted histories -/

/-- An event with the first version tells a creation; any other one is not the first. -/
def Event.FoundsOrFollows (e : Event) : Prop :=
  e.version = 1 ∧ e.mark? = some (.created false) ∨ 1 < e.version

/-- A history in which every event can be read and which has its creation. -/
structure Rooted (a : WorldId) (events : List Event) : Prop where
  record : ∀ e ∈ events, e.IsRecord a
  place : ∀ e ∈ events, e.FoundsOrFollows
  root : events ≠ [] → ∃ e ∈ events, e.version = 1

/-- An event that may be added to a history: it is its creation, or there is one already. -/
structure Event.Continues (e : Event) (a : WorldId) (events : List Event) : Prop where
  record : e.IsRecord a
  place : e.version = 1 ∧ e.mark? = some (.created false) ∨ 1 < e.version ∧ events ≠ []

theorem Event.Continues.widen {e : Event} {a : WorldId} {events events' : List Event}
    (h : e.Continues a events) (hne : events ≠ [] → events' ≠ []) : e.Continues a events' :=
  ⟨h.record, h.place.imp_right fun hlater => ⟨hlater.1, hne hlater.2⟩⟩

theorem Event.Continues.version_ne_zero {e : Event} {a : WorldId} {events : List Event}
    (h : e.Continues a events) : e.version ≠ 0 := by
  obtain ⟨hone, -⟩ | ⟨hlater, -⟩ := h.place
  · rw [hone]
    decide
  · exact fun hzero => absurd (hzero ▸ hlater) (by decide)

theorem Event.mark?_eq_of_first {e : Event} (h : e.FoundsOrFollows) (hone : e.version ≤ 1) :
    e.mark? = some (.created false) := by
  obtain ⟨-, hmark⟩ | hlater := h
  · exact hmark
  · exact absurd hlater (UInt64.not_lt.mpr hone)

theorem Count.one_le_of_ne_zero {n : Count} (h : n ≠ 0) : 1 ≤ n := by
  rw [UInt64.le_iff_toNat_le]
  exact Nat.pos_of_ne_zero fun hzero => h (UInt64.toNat_inj.mp hzero)

theorem Count.one_lt_next {n : Count} (h : n ≠ 0) : 1 < n.next := by
  have hone := UInt64.le_iff_toNat_le.mp (Count.one_le_of_ne_zero h)
  have hnext := Count.toNat_next n
  have hgreatest : 1 < Count.greatest := by decide
  rw [UInt64.lt_iff_toNat_lt, hnext]
  change 1 ≤ n.toNat at hone
  change 1 < min (n.toNat + 1) Count.greatest
  omega

namespace Rooted

variable {a : WorldId} {events : List Event}

theorem nil (a : WorldId) : Rooted a [] := ⟨by simp, by simp, by simp⟩

theorem cons {e : Event} (h : Rooted a events) (he : e.Continues a events) :
    Rooted a (e :: events) where
  record := List.forall_mem_cons.mpr ⟨he.record, h.record⟩
  place := List.forall_mem_cons.mpr ⟨he.place.imp_right And.left, h.place⟩
  root _ := by
    obtain ⟨hone, -⟩ | ⟨-, hne⟩ := he.place
    · exact ⟨e, List.mem_cons_self, hone⟩
    · obtain ⟨first, hmem, hone⟩ := h.root hne
      exact ⟨first, List.mem_cons_of_mem e hmem, hone⟩

theorem one_le (h : Rooted a events) {e : Event} (he : e ∈ events) : 1 ≤ e.version := by
  obtain ⟨hone, -⟩ | hlater := h.place e he
  · exact hone ▸ UInt64.le_refl _
  · exact UInt64.le_of_lt hlater

theorem mem_historyOf (h : Rooted a events) {e : Event} : e ∈ historyOf events ↔ e ∈ events := by
  rw [historyOf, List.mem_mergeSort, List.mem_filter, List.mem_reverse]
  exact ⟨And.left, fun he => ⟨he, decide_eq_true (h.one_le he)⟩⟩

/-- The latest version of a history is not zero. -/
theorem greatest_ne_zero (h : Rooted a events) (hne : events ≠ []) :
    (EventLog.greatestVersion? events).getD 0 ≠ 0 := by
  obtain ⟨first, hmem, hone⟩ := h.root hne
  intro hzero
  have hle := EventLog.le_greatestVersion? events first hmem
  rw [hzero, hone] at hle
  exact absurd hle (by decide)

/-- Read by version, a history starts with a creation. -/
theorem exists_first (h : Rooted a events) (hne : events ≠ []) :
    ∃ first rest, historyOf events = first :: rest ∧ first.mark? = some (.created false) := by
  obtain ⟨root, hroot, hone⟩ := h.root hne
  have hmem := h.mem_historyOf.mpr hroot
  cases hhistory : historyOf events with
  | nil => simp [hhistory] at hmem
  | cons first rest =>
    have hsorted : (historyOf events).Pairwise fun e e' => decide (e.version ≤ e'.version) :=
      List.pairwise_mergeSort (by simpa using fun _ _ _ => UInt64.le_trans)
        (by simpa using fun _ _ => UInt64.le_total _ _) _
    have hfirst : first ∈ events := by
      rw [← h.mem_historyOf, hhistory]
      exact List.mem_cons_self
    have hle : first.version ≤ 1 := by
      rw [hhistory] at hsorted hmem
      obtain rfl | hlater := List.mem_cons.mp hmem
      · exact hone ▸ UInt64.le_refl _
      · exact hone ▸ of_decide_eq_true ((List.pairwise_cons.mp hsorted).1 root hlater)
    exact ⟨first, rest, rfl, Event.mark?_eq_of_first (h.place first hfirst) hle⟩

end Rooted

/-- Events that can be read and come after a creation make a story. -/
theorem Story.of_creation {a : WorldId} {first : Event} {d : CreatedDetails}
    (hfirst : first.Tells a (.created d)) {later : List Event}
    (hlater : ∀ e ∈ later, ∃ d, e.Tells a d) : ∃ t, Story a (later ++ [first]) t := by
  induction later with
  | nil => exact ⟨_, .creation hfirst⟩
  | cons e later ih =>
    obtain ⟨⟨d, htells⟩, hrest⟩ := List.forall_mem_cons.mp hlater
    obtain ⟨t, hstory⟩ := ih hrest
    exact ⟨_, hstory.next htells⟩

theorem Event.tells_creation {e : Event} {a : WorldId} (hrecord : e.IsRecord a)
    (hmark : e.mark? = some (.created false)) : ∃ d, e.Tells a (.created d) := by
  obtain ⟨d, htells⟩ := hrecord.tells
  cases d with
  | created d => exact ⟨d, htells⟩
  | ticked d | paused d | resumed d =>
    rw [htells.mark?_eq] at hmark
    cases hmark

/-- A world with a history can be restored. -/
theorem Rooted.restore_eq {a : WorldId} {events : List Event} (h : Rooted a events)
    (hne : events ≠ []) : ∃ found, restore (historyOf events) a = .ok (some found) := by
  obtain ⟨first, rest, hhistory, hmark⟩ := h.exists_first hne
  have hrecord (e : Event) (he : e ∈ first :: rest) : e.IsRecord a :=
    h.record e (h.mem_historyOf.mp (hhistory ▸ he))
  obtain ⟨d, hfirst⟩ := Event.tells_creation (hrecord first List.mem_cons_self) hmark
  have hlater (e : Event) (he : e ∈ rest.reverse) : ∃ d, e.Tells a d :=
    (hrecord e (List.mem_cons_of_mem _ (List.mem_reverse.mp he))).tells
  obtain ⟨t, hstory⟩ := Story.of_creation hfirst hlater
  have hrestore := WorldClock.restore_eq hstory
  rw [List.reverse_append, List.reverse_reverse, List.reverse_singleton, List.singleton_append,
    ← hhistory] at hrestore
  exact ⟨_, hrestore⟩

/-! ### Those who write -/

theorem Ticker.Goes.filing_version {w : Wiring} {m : Moment} {t t' : Ticker} {entry entry' : World}
    (h : t.Goes w m entry t' entry') {f : Filing} (hfiling : t'.filing? = some f) :
    f.event.version = t.version.next := by
  cases h with
  | tickUnpublished | published | complete =>
    cases hfiling
    rfl
  | recorded | weathered =>
    rw [Ticker.filing?_endTick] at hfiling
    cases hfiling
  | _ => cases hfiling

/-- A creation that is stored is in the history. -/
theorem Filing.Files.ne_nil_of_ok {f f' : Filing} {events events' : List Event}
    (h : f.Files events f' events') (hbefore : f.verdict = some (.ok ()) → events ≠ [])
    (hafter : f'.verdict = some (.ok ())) : events' ≠ [] := by
  cases h with
  | again => exact hbefore hafter
  | stored => exact List.cons_ne_nil _ _
  | refused => cases hafter

namespace View

/-- The history of a world has its creation, and whoever is about to add to it knows. -/
structure Grounded (a : WorldId) (v : View) : Prop where
  rooted : Rooted a v.events
  entry : v.entry ≠ none → v.events ≠ []
  ticker : ∀ t, v.ticker = some t → t.version ≠ 0
  filing : ∀ f, v.filing? = some f → f.event.Continues a v.events
  enrolled : ∀ order f, v.errand = some (.spawn order (.creating f)) →
    f.verdict = some (.ok ()) → v.events ≠ []

namespace Grounded

variable {w : Wiring} {m : Moment} {a : WorldId} {v : View}

/-- A view without a ticker whose errand is about to write nothing, or has just begun to. -/
theorem onErrand (hv : v.Grounded a) {entry : Option World} (hentry : entry ≠ none → v.events ≠ [])
    {errand : Option Errand}
    (hfiling : ∀ e f, errand = some e → e.filing? = some f →
      f.event.Continues a v.events ∧ f.verdict = none) :
    (View.mk entry none errand v.events).Grounded a where
  rooted := hv.rooted
  entry := hentry
  ticker t ht := nomatch ht
  filing f hf := by
    obtain ⟨e, herrand, hf⟩ := Option.bind_eq_some_iff.mp hf
    exact (hfiling e f herrand hf).1
  enrolled order f herrand hverdict := by
    rw [(hfiling _ f herrand rfl).2] at hverdict
    cases hverdict

theorem withTicker (hv : v.Grounded a) {entry : Option World} (hne : v.events ≠ [])
    {t : Ticker} (hversion : t.version ≠ 0) (hfiling : t.filing? = none) :
    (View.mk entry (some t) none v.events).Grounded a where
  rooted := hv.rooted
  entry _ := hne
  ticker t' ht := by
    cases ht
    exact hversion
  filing f hf := by
    cases hfiling.symm.trans hf
  enrolled order f herrand := nomatch herrand

/-- The log has seen the append under way. -/
theorem filed (hv : v.Grounded a) {f f' : Filing} {events' : List Event}
    (hbefore : v.filing? = some f) (hfiles : f.Files v.events f' events')
    {ticker : Option Ticker} {errand : Option Errand}
    (hticker : ∀ t, ticker = some t → t.version ≠ 0)
    (hafter : (View.mk v.entry ticker errand events').filing? = some f')
    (henrolled : ∀ order g, errand = some (.spawn order (.creating g)) →
      g = f' ∧ (f.verdict = some (.ok ()) → v.events ≠ [])) :
    (View.mk v.entry ticker errand events').Grounded a where
  rooted := by
    obtain rfl | ⟨rfl, -⟩ := hfiles.events_eq
    · exact hv.rooted
    · exact hv.rooted.cons (hv.filing f hbefore)
  entry hentry := hfiles.ne_nil (hv.entry hentry)
  ticker := hticker
  filing g hg := by
    cases hafter.symm.trans hg
    rw [hfiles.event_eq]
    exact (hv.filing f hbefore).widen hfiles.ne_nil
  enrolled order g herrand hverdict := by
    obtain ⟨rfl, hstored⟩ := henrolled order g herrand
    exact hfiles.ne_nil_of_ok hstored hverdict

/-- The log has seen the append of an errand. -/
theorem errandFiled (hv : v.Grounded a) (hticker : v.ticker = none) {e e' : Errand}
    {f f' : Filing} {events' : List Event} (herrand : v.errand = some e)
    (hbefore : e.filing? = some f) (hfiles : f.Files v.events f' events')
    (hafter : e'.filing? = some f')
    (hcreation : ∀ order g, e' = .spawn order (.creating g) →
      ∃ order', e = .spawn order' (.creating f)) :
    (View.mk v.entry v.ticker (some e') events').Grounded a := by
  refine hv.filed ((filing?_of_errand hticker herrand).trans hbefore) hfiles
    (fun t ht => by simp [hticker] at ht) ((filing?_onErrand hticker).trans hafter) ?_
  intro order g he
  cases he
  obtain ⟨order', rfl⟩ := hcreation order g rfl
  exact ⟨(Option.some.inj hafter), hv.enrolled order' f herrand⟩

theorem tickerFiled (hv : v.Grounded a) (hc : v.Coherent w a) {t t' : Ticker} {f f' : Filing}
    {events' : List Event} (hticker : v.ticker = some t) (hbefore : t.filing? = some f)
    (hversion : t'.version = t.version) (hafter : t'.filing? = some f')
    (hfiles : f.Files v.events f' events') :
    (View.mk v.entry (some t') v.errand events').Grounded a := by
  refine hv.filed ((filing?_of_ticker hticker).trans hbefore) hfiles ?_ hafter ?_
  · intro t'' ht
    cases ht
    exact hversion ▸ hv.ticker t hticker
  · intro order g herrand
    cases hc.errand_eq_joining hticker herrand

theorem paused (hv : v.Grounded a) (hne : v.events ≠ []) {version : Count} (hversion : version ≠ 0)
    (entry : World) (pending : Count) : (v.paused w m a entry version pending).Grounded a := by
  refine hv.onErrand (fun _ => hne) ?_
  rintro e f ⟨⟩ ⟨⟩
  exact ⟨⟨World.isRecord_pauseEvent _ _ _ _ _, .inr ⟨Count.one_lt_next hversion, hne⟩⟩, rfl⟩

end Grounded

variable {w : Wiring} {m : Moment} {a : WorldId} {v v' : View}

/-- A step keeps the creation of a world in its history. -/
theorem Step.grounded (hc : v.Coherent w a) (hv : v.Grounded a)
    (h : v.Step w m a v') : v'.Grounded a := by
  have hlatest := hv.rooted.greatest_ne_zero
  cases h with
  | askKnown hworld herrand hticker | askUnknown hworld herrand hticker =>
    rw [hticker]
    exact hv.onErrand hv.entry (by rintro e f ⟨⟩ ⟨⟩)
  | @create order herrand hhistory =>
    obtain ⟨-, haccepted, hticker, -⟩ := hc.errand _ herrand
    rw [hticker]
    refine hv.onErrand hv.entry fun e f he hf => ?_
    obtain rfl := Option.some.inj he
    obtain rfl := Option.some.inj hf
    exact ⟨⟨order.isRecord_creation haccepted a 1 m.wall false,
      .inl ⟨rfl, order.mark?_creation haccepted a 1 m.wall false⟩⟩, rfl⟩
  | restore herrand hworld hhistory =>
    have hne : v.events ≠ [] := by
      intro hempty
      rw [hempty, historyOf_eq ascends_nil, List.reverse_nil, restore_nil] at hhistory
      cases hhistory
    rw [hc.ticker_eq_none herrand]
    exact hv.onErrand (fun _ => hne) (by rintro e f ⟨⟩ ⟨⟩)
  | @announce order known herrand hannounce =>
    obtain ⟨-, haccepted, hticker, hentry⟩ := hc.errand _ herrand
    have hne := hv.entry hentry
    rw [hticker]
    refine hv.onErrand hv.entry ?_
    rintro e f ⟨⟩ ⟨⟩
    exact ⟨⟨order.isRecord_creation haccepted a _ m.wall true,
      .inr ⟨Count.one_lt_next (hlatest hne), hne⟩⟩, rfl⟩
  | takeUp herrand hannounce hentry hnew =>
    have hne := hv.entry (by simp [hentry])
    obtain ⟨delta, -, rfl⟩ := Option.map_eq_some_iff.mp hnew
    exact hv.withTicker hne (hlatest hne) rfl
  | takeUpAnnounced herrand hfiled hentry hnew =>
    have hfiling := filing?_of_errand (hc.ticker_eq_none herrand) herrand
    obtain ⟨delta, -, rfl⟩ := Option.map_eq_some_iff.mp hnew
    exact hv.withTicker (hv.entry (by simp [hentry])) (hv.filing _ hfiling).version_ne_zero rfl
  | enroll herrand hfiled hnew =>
    obtain ⟨delta, -, rfl⟩ := Option.map_eq_some_iff.mp hnew
    have hone : (1 : Count) ≠ 0 := by decide
    exact hv.withTicker (hv.enrolled _ _ herrand hfiled) hone rfl
  | fileCreation herrand hfiles =>
    exact hv.errandFiled (hc.ticker_eq_none herrand) herrand rfl hfiles rfl
      fun _ _ _ => ⟨_, rfl⟩
  | fileAnnouncement herrand hfiles =>
    exact hv.errandFiled (hc.ticker_eq_none herrand) herrand rfl hfiles rfl (by rintro _ _ ⟨⟩)
  | filePause herrand hfiles =>
    exact hv.errandFiled (hc.ticker_eq_none_of_ne herrand (by rintro ⟨⟩)) herrand rfl hfiles rfl
      (by rintro _ _ ⟨⟩)
  | giveUp herrand hjoining =>
    rw [hc.ticker_eq_none_of_ne herrand hjoining]
    exact hv.onErrand hv.entry (by rintro e f ⟨⟩)
  | @askStop t herrand hticker hstop =>
    refine ⟨hv.rooted, hv.entry, ?_, fun f hf => hv.filing f ?_, by rintro order f ⟨⟩⟩
    · rintro t' ⟨⟩
      exact hv.ticker t hticker
    · exact (filing?_of_ticker hticker).trans hf
  | pause herrand hticker hphase hentry =>
    exact hv.paused (hv.entry (by simp [hentry])) (hv.ticker _ hticker) _ _
  | breakDown herrand hticker hphase => exact hv.onErrand hv.entry (by rintro e f ⟨⟩ ⟨⟩)
  | pauseBroken herrand hentry =>
    have hne := hv.entry (by simp [hentry])
    exact hv.paused hne (hlatest hne) _ _
  | @goes t t' entry entry' hticker hentry hgoes =>
    have hne := hv.entry (by simp [hentry])
    have hversion := hv.ticker t hticker
    refine ⟨hv.rooted, fun _ => hne, ?_, fun f hf => ⟨?_, .inr ⟨?_, hne⟩⟩, ?_⟩
    · rintro t'' ⟨⟩ hzero
      have hle := hgoes.version_le
      rw [hzero] at hle
      exact absurd (UInt64.le_antisymm hle (UInt64.le_iff_toNat_le.mpr (Nat.zero_le _))) hversion
    · obtain ⟨d, hkind, rfl⟩ := hgoes.filing_eq hf
      exact ⟨t'.version, m.wall, d, Details.isReadable_of_kind hkind,
        by rw [hc.world_eq hticker]; rfl⟩
    · rw [hgoes.filing_version hf]
      exact Count.one_lt_next hversion
    · intro order f herrand
      cases hc.errand_eq_joining hticker herrand
  | fileTick hticker hphase hfiles | fileResumption hticker hphase hfiles =>
    exact hv.tickerFiled hc hticker (by rw [Ticker.filing?, hphase]) rfl rfl hfiles

/-- What is kept of a view with its history is kept by all processes over one log. -/
theorem kept_grounded : Fleet.Kept (fun a v => v.Grounded a) where
  step _ _ _ _ _ _ hc hv h := h.grounded hc hv
  update a v entry new hv hentry :=
    ⟨hv.rooted, fun _ => hv.entry (by simp [hentry]), hv.ticker, hv.filing, hv.enrolled⟩
  death a v hv := hv.onErrand (by simp) (by rintro e f ⟨⟩)
  others a u v hu hv hne :=
    ⟨hv.rooted, fun hentry => hne (hu.entry hentry), hu.ticker,
      fun f hf => (hu.filing f hf).widen hne,
      fun order f herrand hverdict => hne (hu.enrolled order f herrand hverdict)⟩

end View

/-! ### Spawns that cannot restore their world -/

namespace Manager

/-- Why a spawn could not restore its world. -/
def replayError? (p : Manager) : Option ReplayError :=
  match p.errand with
  | some (.over (.error (.replay error))) => some error
  | _ => none

theorem replayError?_launch (p : Manager) (order : SpawnOrder) (version : Count)
    (weatherSyncedAt : Duration) (plan : Option CatchUpPlan) :
    (p.launch order version weatherSyncedAt plan).replayError? = none := by
  rw [launch]
  split <;> rfl

theorem replayError?_enroll (p : Manager) (m : Moment) (order : SpawnOrder) :
    (p.enroll m order).replayError? = none := by
  rw [enroll]
  split
  · rfl
  · exact replayError?_launch ..

theorem replayError?_resume (p : Manager) (order : SpawnOrder) (known : World) :
    (p.resume order known).replayError? = none := by
  rw [resume]
  split <;> rfl

theorem replayError?_takeUp (p : Manager) (m : Moment) (order : SpawnOrder) (known : World)
    (version : Count) : (p.takeUp m order known version).replayError? = none := by
  rw [takeUp]
  split
  · rfl
  · exact replayError?_launch ..

theorem replayError?_announce (p : Manager) (m : Moment) (order : SpawnOrder) (known : World)
    (version : Count) : (p.announce m order known version).replayError? = none := by
  rw [announce]
  split
  · rfl
  · exact replayError?_takeUp ..

theorem replayError?_pause (p : Manager) (m : Moment) (world : WorldId) (version pending : Count) :
    (p.pause m world version pending).replayError? = none := by
  rw [pause]
  split <;> rfl

/-- A spawn fails to restore its world only for what the fold over its history says. -/
theorem replayError?_restoreFrom {p : Manager} {m : Moment} {order : SpawnOrder}
    {history : List Event} {error : ReplayError}
    (h : (p.restoreFrom m order history).replayError? = some error) :
    ∃ e, restore history order.world = .error e := by
  rw [restoreFrom] at h
  split at h
  · next e hhistory => exact ⟨e, hhistory⟩
  · cases h
  · simp only at h
    split at h
    · cases h
    · rw [replayError?_resume] at h
      cases h

theorem replayError?_read {p : Manager} {m : Moment} {failure : Option LogError}
    {error : ReplayError} (h : (p.read m failure).replayError? = some error) :
    p.replayError? = some error ∨ (∃ e, failure = some e ∧ error = .log e) ∨
      ∃ world e, restore (p.surroundings.log.byAggregate world.text 1) world = .error e := by
  rw [read] at h
  split at h
  · next order herrand =>
    split at h
    · next e =>
      cases h
      exact .inr (.inl ⟨e, rfl, rfl⟩)
    · exact .inr (.inr ⟨order.world, replayError?_restoreFrom h⟩)
  · split at h
    · cases h
    · rw [replayError?_announce] at h
      cases h
  · split at h
    · cases h
    · rw [replayError?_pause] at h
      cases h
  · exact .inl h

theorem replayError?_conclude {p : Manager} {m : Moment} {r : Reply LogError} {error : ReplayError}
    (h : (p.conclude m r).replayError? = some error) : p.replayError? = some error := by
  rw [conclude] at h
  split at h
  · exact h
  · exact h
  · cases h
  · split at h
    · rw [replayError?_enroll] at h
      cases h
    · rw [replayError?_takeUp] at h
      cases h
    · cases h
    · exact h

theorem replayError?_file {p : Manager} {error : ReplayError}
    (h : p.file.replayError? = some error) : p.replayError? = some error := by
  rw [file] at h
  split at h
  · cases h
  · cases h
  · cases h
  · exact h

theorem replayError?_join {p : Manager} {m : Moment} {world : WorldId} {error : ReplayError}
    (h : (p.join m world).replayError? = some error) : p.replayError? = some error := by
  rw [join] at h
  split at h
  · exact h
  · simp only at h
    split at h
    · rw [replayError?_pause] at h
      cases h
    · cases h
    · exact h

/-- A move leaves a spawn unable to restore its world only if the log could not be read, or does not
tell the world. -/
theorem replayError?_apply {p : Manager} {m : Moment} {move : Move} {error : ReplayError}
    (h : (p.apply m move).replayError? = some error) :
    p.replayError? = some error ∨ (∃ e, move = .read (some e) ∧ error = .log e) ∨
      ∃ world e, restore (p.surroundings.log.byAggregate world.text 1) world = .error e := by
  cases move with
  | spawn order =>
    rw [apply] at h
    split at h
    · exact .inl h
    · rw [beginSpawn] at h
      split at h
      · cases h
      · split at h
        · cases h
        · split at h
          · rw [replayError?_resume] at h
            cases h
          · cases h
  | stop world =>
    rw [apply] at h
    split at h
    · exact .inl h
    · rw [beginStop] at h
      split at h <;> cases h
  | join =>
    rw [apply] at h
    split at h
    · exact .inl (replayError?_join h)
    · exact .inl h
  | read failure =>
    obtain hbefore | ⟨e, rfl, herror⟩ | hhistory := replayError?_read h
    · exact .inl hbefore
    · exact .inr (.inl ⟨e, rfl, herror⟩)
    · exact .inr (.inr hhistory)
  | file => exact .inl (replayError?_file h)
  | conclude reply => exact .inl (replayError?_conclude h)
  | poll | answer | fileFor | concludeFor | crash =>
    rw [replayError?, apply, errand_stepTicker] at h
    exact .inl h
  | update world change =>
    rw [apply] at h
    split at h <;> exact .inl h

theorem replayError?_of_result? {p : Manager} {error : ReplayError}
    (h : p.result? = some (.error (.replay error))) : p.replayError? = some error := by
  rw [result?] at h
  split at h
  · next herrand =>
    cases h
    rw [replayError?, herrand]
  · cases h

end Manager

/-! ### Fleets -/

namespace Fleet

/-- In the log of a fleet every history can be restored. -/
theorem Holds.restore_eq {f : Fleet} (hf : f.Holds fun a v => v.Grounded a) (a : WorldId) :
    f.log.about a = [] ∧ restore (f.log.byAggregate a.text 1) a = .ok none ∨
      f.log.about a ≠ [] ∧ ∃ found, restore (f.log.byAggregate a.text 1) a = .ok (some found) := by
  rw [EventLog.byAggregate_eq_historyOf]
  by_cases hempty : f.log.about a = []
  · exact .inl ⟨hempty, by rw [hempty, historyOf_eq ascends_nil, List.reverse_nil, restore_nil]⟩
  · exact .inr ⟨hempty, (hf.log a).rooted.restore_eq hempty⟩

theorem Holds.restore_ne_error {f : Fleet} (hf : f.Holds fun a v => v.Grounded a) (a : WorldId)
    (e : DispatchError) : restore (f.log.byAggregate a.text 1) a ≠ .error e := by
  intro herror
  obtain ⟨-, hnone⟩ | ⟨-, found, hsome⟩ := hf.restore_eq a
  · cases herror.symm.trans hnone
  · cases herror.symm.trans hsome

/-- A process of a fleet that could not restore a world could not read the log. -/
theorem replayError_of_meet {f : Fleet} (hf : f.Holds fun a v => v.Grounded a) {o : Occurrence}
    {p : Manager} (hp : p ∈ (f.meet o).processes) {error : ReplayError}
    (herror : p.replayError? = some error) :
    (∃ q ∈ f.processes, q.replayError? = some error) ∨
      ∃ n m e, o = .meets n (.move m (.read (some e))) ∧ error = .log e := by
  cases o with
  | joins wiring projections =>
    obtain hmem | hmem := List.mem_append.mp hp
    · exact .inl ⟨p, hmem, herror⟩
    · rw [List.mem_singleton.mp hmem] at herror
      cases herror
  | meets n i =>
    rw [Fleet.meet] at hp
    split at hp
    · exact .inl ⟨p, hp, herror⟩
    next q hget =>
    obtain hmem | rfl := List.mem_or_eq_of_mem_set hp
    · exact .inl ⟨p, hmem, herror⟩
    cases i with
    | death wiring projections => cases herror
    | move m move =>
      obtain hbefore | ⟨e, rfl, rfl⟩ | ⟨world, e, hrestore⟩ := Manager.replayError?_apply herror
      · exact .inl ⟨q, List.mem_of_getElem? hget, hbefore⟩
      · exact .inr ⟨n, m, e, rfl, rfl⟩
      · exact absurd hrestore (hf.restore_ne_error world e)

theorem replayError_of_live {f : Fleet} (hf : f.Holds fun a v => v.Grounded a)
    {course : List Occurrence} (hcourse : ∀ o ∈ course, o.IsUsable) {p : Manager}
    (hp : p ∈ (f.live course).processes) {error : ReplayError}
    (herror : p.replayError? = some error) :
    (∃ q ∈ f.processes, q.replayError? = some error) ∨
      ∃ n m e, .meets n (.move m (.read (some e))) ∈ course ∧ error = .log e := by
  induction course generalizing f with
  | nil => exact .inl ⟨p, hp, herror⟩
  | cons o course ih =>
    have ho := hcourse o List.mem_cons_self
    obtain ⟨q, hq, hbefore⟩ | ⟨n, m, e, hmem, rfl⟩ := ih (hf.meet View.kept_grounded ho)
      (fun o' ho' => hcourse o' (List.mem_cons_of_mem _ ho')) hp
    · obtain hearlier | ⟨n, m, e, rfl, rfl⟩ := replayError_of_meet hf hq hbefore
      · exact .inl hearlier
      · exact .inr ⟨n, m, e, List.mem_cons_self, rfl⟩
    · exact .inr ⟨n, m, e, List.mem_cons_of_mem o hmem, rfl⟩

/-- Whatever any number of processes have done over a log that was empty, side by side and one after
the other, whichever appends were lost and wherever a process died: restoring a world from the log
never fails, and it finds nothing exactly if the creation of the world was never stored. So a spawn
that cannot restore its world has not been able to read the log. -/
theorem restorable {course : List Occurrence} (hcourse : ∀ o ∈ course, o.IsUsable) :
    let f := empty.live course
    (∀ a, ∃ found, restore (f.log.byAggregate a.text 1) a = .ok found ∧
      (found = none ↔
        ∀ e ∈ f.log.byAggregate a.text 1, e.mark? ≠ some (.created false))) ∧
    ∀ p ∈ f.processes, ∀ error, p.result? = some (.error (.replay error)) →
      ∃ n m e, .meets n (.move m (.read (some e))) ∈ course ∧ error = .log e := by
  have hempty : empty.Holds fun a v => v.Grounded a := holds_empty fun a =>
    ⟨Rooted.nil a, by simp, by simp, by rintro f ⟨⟩, by simp⟩
  have hf := hempty.live View.kept_grounded hcourse
  refine ⟨fun a => ?_, fun p hp error hresult => ?_⟩
  · obtain ⟨hnone, hrestore⟩ | ⟨hne, found, hrestore⟩ := hf.restore_eq a
    · refine ⟨none, hrestore, iff_of_true rfl fun e he => ?_⟩
      rw [EventLog.byAggregate_eq_historyOf, hnone, historyOf_eq ascends_nil] at he
      cases he
    · obtain ⟨first, rest, hhistory, hmark⟩ := (hf.log a).rooted.exists_first hne
      refine ⟨some found, hrestore, iff_of_false (by simp) fun hmarks => hmarks first ?_ hmark⟩
      rw [EventLog.byAggregate_eq_historyOf, hhistory]
      exact List.mem_cons_self
  · obtain ⟨q, hq, -⟩ | hread :=
      replayError_of_live hempty hcourse hp (Manager.replayError?_of_result? hresult)
    · cases hq
    · exact hread

/-- Two processes create one world at the same time. The log takes the event of the first one and
refuses that of the second. -/
def rivals (world : WorldId) : List Occurrence :=
  let spawn : List Move := [.spawn ⟨world, "world", .one⟩, .read none, .file, .conclude .answered]
  [.joins .standard none, .joins .standard none] ++
    spawn.flatMap fun move =>
      [.meets 0 (.move (Manager.momentAt 0) move), .meets 1 (.move (Manager.momentAt 0) move)]

theorem isUsable_rivals (world : WorldId) : ∀ o ∈ rivals world, o.IsUsable := by
  simp [rivals, Occurrence.IsUsable, Incident.IsUsable, Wiring.isUsable_standard]

theorem restorable_of_rivals :
    (∀ o ∈ rivals ⟨⟨0⟩⟩, o.IsUsable) ∧
      ∃ found, restore ((empty.live (rivals ⟨⟨0⟩⟩)).log.byAggregate (WorldId.text ⟨⟨0⟩⟩) 1) ⟨⟨0⟩⟩ =
        .ok (some found) := by
  have hcourse := isUsable_rivals ⟨⟨0⟩⟩
  obtain ⟨found, hrestore, hnone⟩ := (restorable hcourse).1 ⟨⟨0⟩⟩
  have hcreation : ∃ e ∈ (empty.live (rivals ⟨⟨0⟩⟩)).log.byAggregate (WorldId.text ⟨⟨0⟩⟩) 1,
      e.mark? = some (.created false) := by
    decide +kernel
  obtain ⟨e, he, hmark⟩ := hcreation
  cases found with
  | none => exact absurd hmark (hnone.mp rfl e he)
  | some found => exact ⟨hcourse, found, hrestore⟩

end Fleet

end WorldClock
