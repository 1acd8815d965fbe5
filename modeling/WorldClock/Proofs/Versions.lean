import Mathlib.Data.Finset.Card
import Mathlib.Order.Interval.Finset.Nat
import WorldClock.Proofs.Manager.Observation

/-!
# Versions

Whoever writes about a world counts on from the latest version that it knows of (`View.latest`): a
ticker from its own, a stop from that of the ticker, a spawn from what the log has. An append that
fails still uses its version up, so the count never falls behind the log and no append meets a
version that is taken. `Step.progress` says all that a step does to an append and to the count, and
the rest of the module is read off from it: the versions that were used have no gap
(`View.Counted`), no append is refused (`View.Unopposed`), and the versions that are stored have no
gap either if every event is stored (`View.Gapless`).
-/

namespace WorldClock

/-! ### The latest version -/

def EventLog.storedVersion (events : List Event) : Count := (greatestVersion? events).getD 0

theorem EventLog.storedVersion_cons {e : Event} {events : List Event} (h : Ascends (e :: events)) :
    storedVersion (e :: events) = e.version := by
  rw [storedVersion, greatestVersion?_cons (ascends_cons.mp h).1.2, Option.getD_some]

theorem EventLog.storedVersion_le {events : List Event} {version : Count} (h : Ascends events)
    (hversion : ∀ e ∈ events, e.version ≤ version) : storedVersion events ≤ version := by
  cases events with
  | nil => exact UInt64.le_iff_toNat_le.mpr (Nat.zero_le _)
  | cons e events =>
    rw [storedVersion_cons h]
    exact hversion e List.mem_cons_self

theorem Count.next_ne_zero (n : Count) : n.next ≠ 0 := by
  intro hzero
  have hnext := Count.toNat_next n
  rw [hzero] at hnext
  change 0 = min (n.toNat + 1) Count.greatest at hnext
  have hgreatest : 0 < Count.greatest := by decide
  omega

theorem Count.toNat_next_of_lt {n : Count} (h : n.next.toNat < Count.greatest) :
    n.next.toNat = n.toNat + 1 := by
  have hnext := Count.toNat_next n
  omega

namespace View

/-- The version from which the next writer about a world counts on. -/
def latest (v : View) : Count :=
  match v.ticker, v.filing? with
  | some t, _ => t.version
  | none, some f => f.event.version
  | none, none => EventLog.storedVersion v.events

variable {w : Wiring} {m : Moment} {a : WorldId} {v v' : View}

theorem latest_of_ticker {t : Ticker} (hticker : v.ticker = some t) : v.latest = t.version := by
  rw [latest, hticker]

theorem latest_of_filing {f : Filing} (hticker : v.ticker = none) (hfiling : v.filing? = some f) :
    v.latest = f.event.version := by
  rw [latest, hticker, hfiling]

theorem latest_of_plain (hticker : v.ticker = none) (hfiling : v.filing? = none) :
    v.latest = EventLog.storedVersion v.events := by
  rw [latest, hticker, hfiling]

theorem IsSound.latest_eq (hv : v.IsSound w a) {f : Filing} (hfiling : v.filing? = some f) :
    v.latest = f.event.version := by
  cases hticker : v.ticker with
  | none => exact latest_of_filing hticker hfiling
  | some t =>
    rw [filing?_of_ticker hticker] at hfiling
    rw [latest_of_ticker hticker, ((hv.chronicled.ticker t hticker).2 f hfiling).1]

/-- The count never falls behind the log. -/
theorem IsSound.le_latest (hv : v.IsSound w a) : ∀ e ∈ v.events, e.version ≤ v.latest := by
  intro e he
  cases hticker : v.ticker with
  | some t =>
    rw [latest_of_ticker hticker]
    exact (hv.chronicled.ticker t hticker).1 e he
  | none =>
    cases hfiling : v.filing? with
    | some f =>
      rw [latest_of_filing hticker hfiling]
      exact (hv.filing hfiling).1 e he
    | none =>
      rw [latest_of_plain hticker hfiling]
      exact EventLog.le_greatestVersion? _ e he

theorem isBroken_of_filing {f : Filing} (hfiling : v.filing? = some f) : v.isBroken = false := by
  rw [isBroken]
  cases hticker : v.ticker with
  | none => rfl
  | some t =>
    rw [filing?_of_ticker hticker, Ticker.filing?] at hfiling
    rw [Option.any_some]
    split at hfiling
    · next hphase => rw [hphase]; rfl
    · next hphase => rw [hphase]; rfl
    · cases hfiling

/-! ### What a step does to an append -/

/-- What a step does to the append about a world and to the versions. -/
inductive Progress (v v' : View) : Prop where
  | waits (hfiling : v'.filing? = v.filing?) (hbroken : v'.isBroken = v.isBroken)
    (hlatest : v'.latest = v.latest) (hevents : v'.events = v.events) : Progress v v'
  | begins {e : Event} (hbefore : v.filing? = none) (hsound : v.isBroken = false)
    (hafter : v'.filing? = some (Filing.start e)) (hfault : e.fault? = none)
    (hversion : e.version = v.latest.next) (hevents : v'.events = v.events) : Progress v v'
  | files {f f' : Filing} (hbefore : v.filing? = some f) (hafter : v'.filing? = some f')
    (hfiles : f.Files v.events f' v'.events) : Progress v v'
  | ends (hsound : v.isBroken = false) (hafter : v'.filing? = none)
    (hlatest : v'.latest = v.latest) (hevents : v'.events = v.events) : Progress v v'
  /-- The count starts again from what the log has. -/
  | restarts (hticker : v'.ticker = none) (hafter : v'.filing? = none)
    (hevents : v'.events = v.events) : Progress v v'

/-- An errand of a world without a ticker goes on and writes nothing. -/
theorem progress_of_plain (hticker : v.ticker = none) (hfiling : v.filing? = none)
    {entry : Option World} {errand : Errand} (hplain : errand.filing? = none) :
    v.Progress ⟨entry, v.ticker, some errand, v.events⟩ := by
  let v' := View.mk entry v.ticker (some errand) v.events
  have hafter : v'.filing? = none := (filing?_onErrand hticker).trans hplain
  have hlatest : v'.latest = EventLog.storedVersion v.events := latest_of_plain hticker hafter
  exact .waits (hafter.trans hfiling.symm) rfl
    (hlatest.trans (latest_of_plain hticker hfiling).symm) rfl

/-- An errand of a world without a ticker begins an append. -/
theorem progress_of_start (hticker : v.ticker = none) (hfiling : v.filing? = none)
    {entry : Option World} {errand : Errand} {version : Count} {now : Instant} {d : Details}
    (hstart : errand.filing? = some (Filing.start (Event.ofWorld a version now d)))
    (hversion : version = v.latest.next) :
    v.Progress ⟨entry, none, some errand, v.events⟩ := by
  refine .begins hfiling ?_ hstart (Event.fault?_ofWorld a now d ?_) hversion rfl
  · rw [isBroken, hticker, Option.any_none]
  · rw [hversion]
    exact Count.next_ne_zero _

end View

namespace Ticker

theorem Goes.isCrashed_eq {w : Wiring} {m : Moment} {t t' : Ticker} {entry entry' : World}
    (h : t.Goes w m entry t' entry') : t.phase.isCrashed = false := by
  cases h with
  | begin hphase | beginReplay hphase | published hphase | recorded hphase | asked hphase
  | weathered hphase | goOn hphase | endReplay hphase | interrupt hphase | complete hphase
  | resumed hphase | halt hphase => rw [hphase]; rfl
  | tick hbegins | tickUnpublished hbegins =>
    cases hbegins with
    | owed hphase | due hphase => rw [hphase]; rfl
  | crash culprit hover =>
    match hphase : t.phase with
    | .crashed _ => simp [isOver, hphase] at hover
    | .starting _ | .replaying _ | .yielding _ | .publishing .. | .recording .. | .askingWeather ..
    | .replayed _ | .resuming .. | .waiting _ | .finished _ => rfl

/-- A step of a ticker begins an append at the next version, or leaves the ticker without one. -/
theorem Goes.filing_cases {w : Wiring} {m : Moment} {t t' : Ticker} {entry entry' : World}
    (h : t.Goes w m entry t' entry') :
    t'.filing? = none ∧ t'.version = t.version ∨
      t.filing? = none ∧ t'.version = t.version.next ∧
        ∃ d, t'.filing? = some (Filing.start (Event.ofWorld t.world t.version.next m.wall d)) := by
  cases h with
  | tickUnpublished hbegins =>
    refine .inr ⟨?_, rfl, _, rfl⟩
    cases hbegins with
    | owed hphase | due hphase => rw [filing?, hphase]
  | published hphase | complete hphase => exact .inr ⟨by rw [filing?, hphase], rfl, _, rfl⟩
  | recorded | weathered => exact .inl ⟨filing?_endTick _ _ _, rfl⟩
  | _ => exact .inl ⟨rfl, rfl⟩

end Ticker

namespace View

variable {w : Wiring} {m : Moment} {a : WorldId} {v v' : View}

theorem progress_of_goes {t t' : Ticker} {entry entry' : World} (hticker : v.ticker = some t)
    (hgoes : t.Goes w m entry t' entry') :
    v.Progress { v with ticker := some t', entry := some entry' } := by
  have hsound : v.isBroken = false := by
    rw [isBroken, hticker, Option.any_some, hgoes.isCrashed_eq]
  obtain ⟨hafter, hversion⟩ | ⟨hbefore, hversion, d, hafter⟩ := hgoes.filing_cases
  · exact .ends hsound hafter (hversion.trans (latest_of_ticker hticker).symm) rfl
  · refine .begins ((filing?_of_ticker hticker).trans hbefore) hsound hafter ?_ ?_ rfl
    · exact Event.fault?_ofWorld _ _ d (Count.next_ne_zero _)
    · rw [latest_of_ticker hticker]
      rfl

/-- A ticker is launched at the version of the append that its spawn has waited for. -/
theorem progress_of_launch {clock : ClockSettings} {dilation : Binary64} {version : Count}
    {weatherSyncedAt : Duration} {plan : Option CatchUpPlan} {t : Ticker} {entry : World}
    (hticker : v.ticker = none) (hversion : v.latest = version)
    (hnew : Ticker.new? clock a dilation version weatherSyncedAt plan = some t) :
    v.Progress ⟨some entry, some t, none, v.events⟩ := by
  obtain ⟨delta, -, rfl⟩ := Option.map_eq_some_iff.mp hnew
  exact .ends (by rw [isBroken, hticker, Option.any_none]) rfl hversion.symm rfl

theorem Step.progress (hv : v.IsSound w a) (h : v.Step w m a v') : v.Progress v' := by
  have hc := hv.coherent
  cases h with
  | askKnown hworld herrand hticker | askUnknown hworld herrand hticker =>
    exact progress_of_plain hticker (filing?_of_idle hticker herrand) rfl
  | create herrand hhistory =>
    have hticker := hc.ticker_eq_none herrand
    have hfiling := filing?_of_errand hticker herrand
    have hempty := hv.chronicled.restore_eq_none_iff.mp hhistory
    have hlatest : v.latest = 0 := by
      rw [latest_of_plain hticker hfiling, hempty]
      rfl
    rw [hticker]
    exact progress_of_start hticker hfiling rfl (by rw [hlatest]; decide)
  | restore herrand =>
    have hticker := hc.ticker_eq_none herrand
    exact progress_of_plain hticker (filing?_of_errand hticker herrand) rfl
  | announce herrand =>
    have hticker := hc.ticker_eq_none herrand
    have hfiling := filing?_of_errand hticker herrand
    rw [hticker]
    exact progress_of_start hticker hfiling rfl (by rw [latest_of_plain hticker hfiling]; rfl)
  | takeUp herrand hannounce hentry hnew =>
    have hticker := hc.ticker_eq_none herrand
    have hfiling := filing?_of_errand hticker herrand
    exact progress_of_launch hticker (latest_of_plain hticker hfiling) hnew
  | takeUpAnnounced herrand hfiled hentry hnew =>
    have hticker := hc.ticker_eq_none herrand
    have hfiling := filing?_of_errand hticker herrand
    exact progress_of_launch hticker (latest_of_filing hticker hfiling) hnew
  | @enroll order filing t herrand hfiled hnew =>
    have hticker := hc.ticker_eq_none herrand
    have hfiling := filing?_of_errand hticker herrand
    obtain ⟨now, hevent, -⟩ := hv.chronicled.creation order filing herrand
    refine progress_of_launch hticker ?_ hnew
    rw [latest_of_filing hticker hfiling, hevent]
    rfl
  | fileCreation herrand hfiles | fileAnnouncement herrand hfiles =>
    have hticker := hc.ticker_eq_none herrand
    exact .files (filing?_of_errand hticker herrand) (filing?_onErrand hticker) hfiles
  | filePause herrand hfiles =>
    have hticker := hc.ticker_eq_none_of_ne herrand (by rintro ⟨⟩)
    exact .files (filing?_of_errand hticker herrand) (filing?_onErrand hticker) hfiles
  | giveUp herrand hjoining =>
    have hticker := hc.ticker_eq_none_of_ne herrand hjoining
    exact .restarts hticker (filing?_of_idle hticker rfl) rfl
  | askStop herrand hticker hstop =>
    refine .waits (filing?_of_ticker hticker).symm ?_ (latest_of_ticker hticker).symm rfl
    rw [isBroken, isBroken, hticker]
    rfl
  | pause herrand hticker hphase hentry =>
    refine .begins ?_ ?_ rfl (Event.fault?_ofWorld _ _ _ (Count.next_ne_zero _)) ?_ rfl
    · rw [filing?_of_ticker hticker, Ticker.filing?, hphase]
    · rw [isBroken, hticker, Option.any_some, hphase]
      rfl
    · rw [latest_of_ticker hticker]
      rfl
  | breakDown => exact .restarts rfl rfl rfl
  | pauseBroken herrand hentry =>
    have hticker := hc.ticker_eq_none_of_ne herrand (by rintro ⟨⟩)
    have hfiling := filing?_of_errand hticker herrand
    exact progress_of_start hticker hfiling rfl (by rw [latest_of_plain hticker hfiling]; rfl)
  | goes hticker hentry hgoes => exact progress_of_goes hticker hgoes
  | fileTick hticker hphase hfiles | fileResumption hticker hphase hfiles =>
    refine .files ((filing?_of_ticker hticker).trans ?_) ((filing?_of_ticker rfl).trans rfl) hfiles
    rw [Ticker.filing?, hphase]

/-! ### Versions that were used -/

/-- The versions up to a given one are among those that were used. -/
def Reaches (used : List Count) (version : Count) : Prop :=
  ∀ u : Count, 0 < u → u ≤ version → u ∈ used

theorem Reaches.mono {used used' : List Count} {version version' : Count}
    (h : Reaches used version) (hused : used ⊆ used') (hversion : version' ≤ version) :
    Reaches used' version' :=
  fun u hpos hle => hused (h u hpos (UInt64.le_trans hle hversion))

/-- One more version is used. -/
theorem Reaches.next {used : List Count} {version : Count} (h : Reaches used version) :
    Reaches (version.next :: used) version.next := by
  intro u hpos hle
  by_cases hold : u ≤ version
  · exact List.mem_cons_of_mem _ (h u hpos hold)
  · have hnext := Count.toNat_next version
    rw [UInt64.le_iff_toNat_le] at hle hold
    have hsame : u = version.next := UInt64.toNat_inj.mp (by omega)
    rw [hsame]
    exact List.mem_cons_self

/-- As many versions were used as the greatest of them tells. -/
theorem Reaches.toNat_le_card {used : List Count} {version : Count} (h : Reaches used version) :
    version.toNat ≤ used.toFinset.card := by
  have hsubset : Finset.Icc 1 version.toNat ⊆ used.toFinset.image UInt64.toNat := by
    intro n hn
    obtain ⟨hpos, hle⟩ := Finset.mem_Icc.mp hn
    have hgreatest := version.toNat_le_greatest
    have htoNat : (Count.ofNat n).toNat = n := by
      rw [Count.toNat_ofNat]
      omega
    refine Finset.mem_image.mpr ⟨Count.ofNat n, List.mem_toFinset.mpr (h _ ?_ ?_), htoNat⟩
    · rw [UInt64.lt_iff_toNat_lt, htoNat]
      exact hpos
    · rw [UInt64.le_iff_toNat_le, htoNat]
      exact hle
  calc version.toNat = (Finset.Icc 1 version.toNat).card := by simp
    _ ≤ (used.toFinset.image UInt64.toNat).card := Finset.card_le_card hsubset
    _ ≤ used.toFinset.card := Finset.card_image_le

/-- Notes the version of the append that is under way. -/
def noteVersion (_ : View) (_ : Incident) (after : View) (used : List Count) : List Count :=
  match after.filing? with
  | some f => f.event.version :: used
  | none => used

theorem subset_noteVersion (before : View) (i : Incident) (after : View) (used : List Count) :
    used ⊆ noteVersion before i after used := by
  rw [noteVersion]
  split
  · exact List.subset_cons_self _ _
  · exact List.Subset.refl _

/-- The versions that were used have no gap, and the next one is new or the same again. -/
structure Counted (v : View) (used : List Count) : Prop where
  latest : Reaches used v.latest
  used : ∀ u ∈ used, Reaches used u

theorem Counted.note {used : List Count} (h : v.Counted used) (hv' : v'.IsSound w a) {i : Incident}
    (hlatest : Reaches (noteVersion v i v' used) v'.latest) :
    v'.Counted (noteVersion v i v' used) where
  latest := hlatest
  used u hu := by
    have hsubset := subset_noteVersion v i v' used
    cases hfiling : v'.filing? with
    | none =>
      rw [noteVersion, hfiling] at hu
      exact (h.used u hu).mono hsubset (UInt64.le_refl _)
    | some f =>
      rw [noteVersion, hfiling] at hu
      obtain rfl | hu := List.mem_cons.mp hu
      · exact hv'.latest_eq hfiling ▸ hlatest
      · exact (h.used u hu).mono hsubset (UInt64.le_refl _)

theorem Counted.stay {used : List Count} (h : v.Counted used) (hv : v.IsSound w a) (i : Incident) :
    v.Counted (noteVersion v i v used) :=
  h.note hv (h.latest.mono (subset_noteVersion v i v used) (UInt64.le_refl _))

theorem Counted.restart {w' : Wiring} {used : List Count} (h : v.Counted used) (hv : v.IsSound w a)
    (hv' : v'.IsSound w' a) {i : Incident} (hticker : v'.ticker = none)
    (hafter : v'.filing? = none) (hevents : v'.events = v.events) :
    v'.Counted (noteVersion v i v' used) := by
  refine h.note hv' (h.latest.mono (subset_noteVersion v i v' used) ?_)
  rw [latest_of_plain hticker hafter, hevents]
  exact EventLog.storedVersion_le hv.chronicled.ascends hv.le_latest

theorem Step.counted {used : List Count} (hv : v.IsSound w a) (hsteps : v.Step w m a v')
    (h : v.Counted used) (i : Incident) : v'.Counted (noteVersion v i v' used) := by
  have hv' := hsteps.isSound hv
  have hsubset := subset_noteVersion v i v' used
  cases hsteps.progress hv with
  | waits hfiling hbroken hlatest | ends hsound hafter hlatest =>
    refine h.note hv' (h.latest.mono hsubset ?_)
    rw [hlatest]
    exact UInt64.le_refl _
  | begins hbefore hsound hafter hfault hversion =>
    have hlatest := hv'.latest_eq hafter
    refine h.note hv' ?_
    rw [hlatest, noteVersion, hafter]
    change Reaches (_ :: used) _
    rw [show (Filing.start _).event.version = v.latest.next from hversion]
    exact h.latest.next
  | files hbefore hafter hfiles =>
    refine h.note hv' (h.latest.mono hsubset ?_)
    rw [hv'.latest_eq hafter, hfiles.event_eq, hv.latest_eq hbefore]
    exact UInt64.le_refl _
  | restarts hticker hafter hevents => exact h.restart hv hv' hticker hafter hevents

/-! ### No append is refused -/

/-- The append under way is one that the log takes, unless versions have run out. -/
def Unopposed (v : View) : Prop :=
  ∀ f, v.filing? = some f → f.event.fault? = none ∧
    (f.event.version.toNat < Count.greatest →
      (f.verdict = none → ∀ e ∈ v.events, e.version < f.event.version) ∧
        ∀ error, f.verdict ≠ some (.error error))

theorem unopposed_of_plain (hfiling : v.filing? = none) : v.Unopposed := by
  intro f hsome
  rw [hfiling] at hsome
  cases hsome

theorem Step.unopposed (hv : v.IsSound w a) (hsteps : v.Step w m a v') (h : v.Unopposed) :
    v'.Unopposed := by
  cases hsteps.progress hv with
  | waits hfiling hbroken hlatest hevents =>
    intro f hsome
    rw [hevents]
    exact h f (hfiling ▸ hsome)
  | ends hsound hafter | restarts hticker hafter => exact unopposed_of_plain hafter
  | @begins e hbefore hsound hafter hfault hversion hevents =>
    intro f hsome
    obtain rfl := Option.some.inj (hafter.symm.trans hsome)
    refine ⟨hfault, fun hfew => ⟨fun _ earlier he => ?_, fun error hverdict => nomatch hverdict⟩⟩
    have hahead := UInt64.le_iff_toNat_le.mp (hv.le_latest earlier (hevents ▸ he))
    have hfew' : v.latest.next.toNat < Count.greatest := hversion ▸ hfew
    have hnext := Count.toNat_next_of_lt hfew'
    change earlier.version < e.version
    rw [hversion, UInt64.lt_iff_toNat_lt]
    omega
  | @files f f' hbefore hafter hfiles =>
    intro g hsome
    obtain rfl := Option.some.inj (hafter.symm.trans hsome)
    obtain ⟨hfault, hfree⟩ := h f hbefore
    rw [hfiles.event_eq]
    refine ⟨hfault, fun hfew => ?_⟩
    obtain ⟨hfresh, hverdict⟩ := hfree hfew
    generalize hevents : v'.events = events' at hfiles
    cases hfiles with
    | again hdone => exact ⟨fun hnone => absurd hnone hdone, hverdict⟩
    | stored => exact ⟨by rintro ⟨⟩, by rintro error ⟨⟩⟩
    | refused error hnone hcause =>
      -- Nothing is wrong with the event, and its version is ahead of all that are stored.
      obtain hwrong | ⟨earlier, he, hsame⟩ := hcause
      · exact absurd hfault hwrong
      · exact absurd hsame (UInt64.ne_of_lt (hfresh hnone earlier he))

/-! ### No version is left out -/

/-- How many events are under way that the log has not taken. -/
def unstored (v : View) : Nat :=
  match v.filing? with
  | some f => if f.isStored then 0 else 1
  | none => 0

theorem unstored_of_none (hfiling : v.filing? = none) : v.unstored = 0 := by
  rw [unstored, hfiling]

theorem unstored_of_some {f : Filing} (hfiling : v.filing? = some f) :
    v.unstored = if f.isStored then 0 else 1 := by
  rw [unstored, hfiling]

/-- The stored versions have no gap, and the latest version is that of the latest event, be it
stored or not. -/
structure Gapless (v : View) : Prop where
  events : v.events.reverse.map (fun e => e.version.toNat) = List.range' 1 v.events.length
  latest : v.isBroken = false → v.latest.toNat = v.events.length + v.unstored

theorem toNat_storedVersion {events : List Event} (hascends : Ascends events)
    (h : events.reverse.map (fun e => e.version.toNat) = List.range' 1 events.length) :
    (EventLog.storedVersion events).toNat = events.length := by
  cases events with
  | nil => rfl
  | cons e events =>
    rw [List.reverse_cons, List.map_append, List.length_cons, List.range'_1_concat] at h
    have hlast := (List.append_inj' h rfl).2
    rw [EventLog.storedVersion_cons hascends, List.length_cons, Nat.add_comm]
    exact List.cons.inj hlast |>.1

theorem Gapless.restart (h : v.Gapless) (hv : v.IsSound w a) (hticker : v'.ticker = none)
    (hafter : v'.filing? = none) (hevents : v'.events = v.events) : v'.Gapless where
  events := by
    rw [hevents]
    exact h.events
  latest _ := by
    rw [latest_of_plain hticker hafter, unstored_of_none hafter, hevents]
    exact toNat_storedVersion hv.chronicled.ascends h.events

theorem Step.gapless (hv : v.IsSound w a) (hsteps : v.Step w m a v') (hfree : v.Unopposed)
    (hfew : ∀ f, v'.filing? = some f → f.event.version.toNat < Count.greatest)
    (hstores : v.loses v' = false) (h : v.Gapless) : v'.Gapless := by
  have hv' := hsteps.isSound hv
  cases hsteps.progress hv with
  | waits hfiling hbroken hlatest hevents =>
    refine ⟨by rw [hevents]; exact h.events, fun hsound => ?_⟩
    rw [hlatest, hevents, unstored, hfiling]
    exact h.latest (hbroken ▸ hsound)
  | @begins e hbefore hsound hafter hfault hversion hevents =>
    refine ⟨by rw [hevents]; exact h.events, fun _ => ?_⟩
    have hbelow : v.latest.next.toNat < Count.greatest := hversion ▸ hfew _ hafter
    have hlatest := h.latest hsound
    rw [unstored_of_none hbefore] at hlatest
    rw [hv'.latest_eq hafter, unstored_of_some hafter, hevents]
    change e.version.toNat = v.events.length + 1
    rw [hversion, Count.toNat_next_of_lt hbelow, hlatest]
  | @files f f' hbefore hafter hfiles =>
    have hlatest := h.latest (isBroken_of_filing hbefore)
    rw [hv.latest_eq hbefore, unstored_of_some hbefore] at hlatest
    have hbelow : f.event.version.toNat < Count.greatest := hfiles.event_eq ▸ hfew f' hafter
    have hlatest' : v'.latest = f.event.version :=
      (hv'.latest_eq hafter).trans (congrArg Event.version hfiles.event_eq)
    have hunstored := unstored_of_some hafter
    generalize hevents : v'.events = events' at hfiles
    cases hfiles with
    | again =>
      refine ⟨by rw [hevents]; exact h.events, fun _ => ?_⟩
      rw [hlatest', hunstored, hevents]
      exact hlatest
    | stored hfresh =>
      have hlength : f.event.version.toNat = v.events.length + 1 := by
        have hnew : f.isStored = false := by rw [Filing.isStored, hfresh]
        rw [hlatest, hnew]
        rfl
      refine ⟨?_, fun _ => ?_⟩
      · rw [hevents, List.reverse_cons, List.map_append, h.events, List.length_cons,
          List.range'_1_concat, List.map_singleton, hlength, Nat.add_comm]
      · rw [hlatest', hunstored, hevents]
        exact hlength
    | refused error hnone hcause =>
      obtain ⟨hfault, hahead⟩ := hfree f hbefore
      obtain hwrong | ⟨earlier, he, hsame⟩ := hcause
      · exact absurd hfault hwrong
      · exact absurd hsame (UInt64.ne_of_lt ((hahead hbelow).1 hnone earlier he))
  | ends hsound hafter hlatest hevents =>
    refine ⟨by rw [hevents]; exact h.events, fun hsound' => ?_⟩
    rw [hlatest, hevents, unstored_of_none hafter, h.latest hsound]
    cases hbefore : v.filing? with
    | none => rw [unstored_of_none hbefore]
    | some f =>
      have hstored := isStored_of_loses hstores hbefore hafter hsound'
      rw [unstored_of_some hbefore, if_pos (Filing.isStored_iff.mpr hstored)]
  | restarts hticker hafter hevents => exact h.restart hv hticker hafter hevents

end View

/-! ### Courses -/

namespace Manager

/-- The versions that the writers about a world give to their events in a course. -/
def versionsUsed (p : Manager) (a : WorldId) (course : List Incident) : List Count :=
  p.observe a View.noteVersion [] course

/-- Whether the log has taken the event of every append about a world that a course ends. One that a
process dies over is not ended. -/
def storesAll (p : Manager) (a : WorldId) (course : List Incident) : Bool :=
  p.throughout a (fun v i v' => match i with
    | .move _ _ => !v.loses v'
    | .death _ _ => true) course

variable {w : Wiring} {log : EventLog} {a : WorldId} {course : List Incident}

/-- Every append that the log sees, in a world that nobody wrote about before, is one that it takes,
unless versions have run out. -/
theorem counted_live (hw : w.IsUsable) (projections : Option (Dispatcher ReadModel))
    (hfresh : log.about a = []) (hown : ∀ i ∈ course, i.IsOwn) :
    let v := ((start w log projections).live course).viewOf a
    (v.IsSound ((start w log projections).live course).wiring a) ∧
      v.Counted ((start w log projections).versionsUsed a course) ∧ v.Unopposed := by
  refine observe_keeps (fun _ _ _ => true) View.noteVersion
    (fun _ v used => v.Counted used ∧ v.Unopposed) ?_ ?_ ?_
    (coherent_start w log projections) (isSound_start hw projections hfresh) hown
    (throughout_true _ _ _) [] ?_
  · rintro w m move v used hv - ⟨hcounted, hfree⟩
    exact ⟨hcounted.stay hv _, hfree⟩
  · rintro w m move v v' used hv - hsteps ⟨hcounted, hfree⟩
    exact ⟨hsteps.counted hv hcounted _, hsteps.unopposed hv hfree⟩
  · rintro w w' projections v used hv hw' - ⟨hcounted, hfree⟩
    exact ⟨hcounted.restart hv (hv.afterDeath hw') rfl rfl rfl, View.unopposed_of_plain rfl⟩
  · rw [viewOf_start w projections hfresh]
    refine ⟨⟨fun u hpos hle => ?_, by rintro u ⟨⟩⟩, View.unopposed_of_plain rfl⟩
    exact absurd hpos (UInt64.not_lt.mpr hle)

/-- As long as the log takes every event that is written about a world, no version is left out. -/
theorem gapless_live (hw : w.IsUsable) (projections : Option (Dispatcher ReadModel))
    (hfresh : log.about a = []) (hown : ∀ i ∈ course, i.IsOwn)
    (hfew : ((start w log projections).versionsUsed a course).toFinset.card < Count.greatest)
    (hstores : (start w log projections).storesAll a course = true) :
    (((start w log projections).live course).viewOf a).Gapless := by
  have hbelow : ∀ u ∈ (start w log projections).versionsUsed a course,
      u.toNat < Count.greatest := fun u hu =>
    Nat.lt_of_le_of_lt
      ((counted_live hw projections hfresh hown).2.1.used u hu).toNat_le_card hfew
  refine ((observe_keeps _ View.noteVersion (fun _ v used => v.Unopposed ∧
    ((∀ u ∈ used, u.toNat < Count.greatest) → v.Gapless)) ?_ ?_ ?_
    (coherent_start w log projections) (isSound_start hw projections hfresh) hown
    hstores [] ?_).2.2 hbelow)
  · rintro w m move v used - - ⟨hfree, hgapless⟩
    exact ⟨hfree, fun hfew => hgapless fun u hu => hfew u (View.subset_noteVersion _ _ _ _ hu)⟩
  · rintro w m move v v' used hv hrule hsteps ⟨hfree, hgapless⟩
    refine ⟨hsteps.unopposed hv hfree, fun hfew => ?_⟩
    refine hsteps.gapless hv hfree ?_ (by simpa using hrule)
      (hgapless fun u hu => hfew u (View.subset_noteVersion _ _ _ _ hu))
    intro f hfiling
    refine hfew _ ?_
    rw [View.noteVersion, hfiling]
    exact List.mem_cons_self
  · rintro w w' projections v used hv - - ⟨-, hgapless⟩
    refine ⟨View.unopposed_of_plain rfl, fun hfew => ?_⟩
    exact (hgapless fun u hu => hfew u (View.subset_noteVersion _ _ _ _ hu)).restart hv rfl rfl rfl
  · rw [viewOf_start w projections hfresh]
    exact ⟨View.unopposed_of_plain rfl, fun _ => ⟨rfl, fun _ => rfl⟩⟩

/-- Nobody but the writers of a line of processes writes about a world. Then no append is refused,
the versions that are stored increase, and they are all the versions from one if every event is
stored. -/
theorem versions_of_sole_writer (hw : w.IsUsable) (projections : Option (Dispatcher ReadModel))
    (hfresh : log.about a = []) (hown : ∀ i ∈ course, i.IsOwn)
    (hfew : ((start w log projections).versionsUsed a course).toFinset.card < Count.greatest) :
    let p := (start w log projections).live course
    let history := p.surroundings.log.events.filter fun e => e.aggregateId == a.text
    (∀ f error, (p.viewOf a).filing? = some f → f.verdict ≠ some (.error error)) ∧
      history.Pairwise (fun e e' => e.version < e'.version) ∧
      ((start w log projections).storesAll a course = true →
        history.map (fun e => e.version.toNat) = List.range' 1 history.length) := by
  obtain ⟨hsound, hcounted, hfree⟩ := counted_live hw projections hfresh hown
  intro p history
  have hhistory : history = (p.viewOf a).events.reverse := List.filter_reverse
  refine ⟨fun f error hfiling => ?_, ?_, fun hstores => ?_⟩
  · have hused : View.Reaches _ f.event.version := hsound.latest_eq hfiling ▸ hcounted.latest
    exact ((hfree f hfiling).2 (Nat.lt_of_le_of_lt hused.toNat_le_card hfew)).2 error
  · rw [hhistory, List.pairwise_reverse]
    exact hsound.chronicled.ascends.1
  · rw [hhistory, (gapless_live hw projections hfresh hown hfew hstores).events,
      List.length_reverse]

theorem versions_of_interruptedOnce :
    let p := (start .standard .empty none).live (interruptedOnce ⟨⟨0⟩⟩)
    let history := p.surroundings.log.events.filter fun e =>
      e.aggregateId == (⟨⟨0⟩⟩ : WorldId).text
    history.length = 6 ∧
      history.map (fun e => e.version.toNat) = List.range' 1 history.length := by
  have hfresh : EventLog.empty.about ⟨⟨0⟩⟩ = [] := rfl
  have hcases := versions_of_sole_writer Wiring.isUsable_standard none hfresh
    (isOwn_interruptedOnce ⟨⟨0⟩⟩) (by decide +kernel)
  exact ⟨by decide +kernel, hcases.2.2 (by decide +kernel)⟩

end Manager

end WorldClock
