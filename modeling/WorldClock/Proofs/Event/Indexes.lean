import WorldClock.Event.IndexedLog
import WorldClock.Proofs.Event.Histories

/-!
# The index of a log

The index of a log and its events say the same (`IndexedLog.IsIndexed`): a version of an aggregate
has a place exactly if the event that came in at this place is of the aggregate and has the version.
So no place of the index is without an event, no event is without a place, and no two events share
an aggregate and a version. Every append keeps that, whichever way it ends, and then a log answers
from its index as if it had gone through all its events.
-/

namespace WorldClock

/-! ### Orders of events -/

/-- The events in the order of their instants; those of one instant stay in the order in which they
were. -/
structure SortsByTime (sorted events : List Event) : Prop where
  perm : sorted.Perm events
  ordered : sorted.Pairwise fun e e' => e.timestamp ≤ e'.timestamp
  stable : ∀ t, sorted.filter (fun e => decide (e.timestamp = t)) =
    events.filter fun e => decide (e.timestamp = t)

theorem sortsByTime_sortByTime (events : List Event) :
    SortsByTime (EventLog.sortByTime events) events := by
  have htrans : ∀ a b c : Event, decide (a.timestamp ≤ b.timestamp) = true →
      decide (b.timestamp ≤ c.timestamp) = true → decide (a.timestamp ≤ c.timestamp) = true :=
    fun _ _ _ hab hbc =>
      decide_eq_true (Int.le_trans (of_decide_eq_true hab) (of_decide_eq_true hbc))
  have htotal : ∀ a b : Event,
      (decide (a.timestamp ≤ b.timestamp) || decide (b.timestamp ≤ a.timestamp)) = true := by
    intro a b
    rw [Bool.or_eq_true, decide_eq_true_iff, decide_eq_true_iff]
    exact Int.le_total a.timestamp.nanos b.timestamp.nanos
  have hperm : (EventLog.sortByTime events).Perm events := List.mergeSort_perm _ _
  refine ⟨hperm, (List.pairwise_mergeSort htrans htotal events).imp of_decide_eq_true, fun t => ?_⟩
  -- Events of one instant are in order as they are, so sorting leaves them so.
  have hsame : (events.filter fun e => decide (e.timestamp = t)).Pairwise
      fun a b => decide (a.timestamp ≤ b.timestamp) = true := by
    refine List.pairwise_filter.mpr (List.pairwise_of_forall fun a b ha hb => ?_)
    rw [of_decide_eq_true ha, of_decide_eq_true hb]
    exact decide_eq_true (Int.le_refl t.nanos)
  have hsublist := (List.sublist_mergeSort htrans htotal hsame List.filter_sublist).filter
    fun e => decide (e.timestamp = t)
  rw [List.filter_filter] at hsublist
  simp only [Bool.and_self] at hsublist
  exact (hsublist.eq_of_length (hperm.filter _).length_eq.symm).symm

namespace IndexedLog

/-- The place of a version of an aggregate. -/
def place? (log : IndexedLog) (aggregateId : String) (version : Count) : Option Nat :=
  (log.tableOf aggregateId)[version]?

/-! ### Reading along the index -/

theorem byAggregate_eq (log : IndexedLog) (aggregateId : String) (first : Count) :
    log.byAggregate aggregateId first =
      log.collect (((log.tableOf aggregateId).toList.filter fun (version, _) =>
        decide (first ≤ version)).map (·.2)) := by
  rw [byAggregate, tableOf, Std.HashMap.getD_eq_getD_getElem?]
  cases log.places[aggregateId]? with
  | none => rfl
  | some table => rfl

theorem latestVersion?_eq (log : IndexedLog) (aggregateId : String) :
    log.latestVersion? aggregateId = (log.tableOf aggregateId).maxKey? := by
  rw [latestVersion?, tableOf, Std.HashMap.getD_eq_getD_getElem?]
  cases log.places[aggregateId]? with
  | none => exact Std.TreeMap.maxKey?_emptyc.symm
  | some table => rfl

/-- No read tells two logs apart. -/
structure Alike (log log' : IndexedLog) : Prop where
  size : log.size = log'.size
  byAggregate : ∀ aggregateId first,
    log.byAggregate aggregateId first = log'.byAggregate aggregateId first
  byTag : ∀ tag first last, log.byTag tag first last = log'.byTag tag first last
  since : ∀ first limit, log.since first limit = log'.since first limit
  latestVersion? : ∀ aggregateId, log.latestVersion? aggregateId = log'.latestVersion? aggregateId
  lastVersion? : ∀ aggregateId, log.lastVersion? aggregateId = log'.lastVersion? aggregateId

theorem alike_of_tables {log log' : IndexedLog} (harrivals : log.arrivals = log'.arrivals)
    (htables : ∀ aggregateId, log.tableOf aggregateId = log'.tableOf aggregateId) :
    log.Alike log' := by
  have hcollect : log.collect = log'.collect := by
    funext places
    rw [collect, collect, harrivals]
  have hhistory : ∀ aggregateId first,
      log.byAggregate aggregateId first = log'.byAggregate aggregateId first := fun a first => by
    rw [byAggregate_eq, byAggregate_eq, htables, hcollect]
  have hplain : log.toLog = log'.toLog := by rw [toLog, toLog, harrivals]
  refine ⟨congrArg Array.size harrivals, hhistory, fun tag first last => ?_, fun first limit => ?_,
    fun a => ?_, fun a => ?_⟩
  · rw [byTag, byTag, hplain]
  · rw [since, since, hplain]
  · rw [latestVersion?_eq, latestVersion?_eq, htables]
  · rw [IndexedLog.lastVersion?, IndexedLog.lastVersion?, hhistory]

/-! ### Appends -/

/-- An append is refused, and nothing can be seen of it, or the event comes in last and its version
gets its place. -/
theorem append_cases (log : IndexedLog) (e : Event) :
    (∃ error, (log.append e).1 = .error error) ∧
        (e.fault? ≠ none ∨ log.place? e.aggregateId e.version ≠ none) ∧
        (log.append e).2.arrivals = log.arrivals ∧
        (∀ aggregateId, (log.append e).2.tableOf aggregateId = log.tableOf aggregateId) ∨
      (log.append e).1 = .ok () ∧ e.fault? = none ∧
        log.place? e.aggregateId e.version = none ∧
        (log.append e).2.arrivals = log.arrivals.push e ∧
        ∀ aggregateId version, (log.append e).2.place? aggregateId version =
          if e.aggregateId = aggregateId ∧ e.version = version then some log.size
          else log.place? aggregateId version := by
  cases hfault : e.fault? with
  | some fault =>
    have happend : log.append e = (.error (.invalid fault), log) := by rw [append, hfault]
    rw [happend]
    exact .inl ⟨⟨_, rfl⟩, .inl (Option.some_ne_none _), rfl, fun _ => rfl⟩
  | none =>
    have htaken : (log.tableOf e.aggregateId).contains e.version =
        (log.place? e.aggregateId e.version).isSome := Std.TreeMap.contains_eq_isSome_getElem?
    cases hplace : log.place? e.aggregateId e.version with
    | some place =>
      have happend : log.append e = (.error (.conflict e.aggregateId e.version), { log with
          places := log.places.insert e.aggregateId (log.tableOf e.aggregateId) }) := by
        simp only [append, hfault, htaken, hplace, Option.isSome_some, if_true]
      rw [happend]
      refine .inl ⟨⟨_, rfl⟩, .inr (Option.some_ne_none _), rfl, fun aggregateId => ?_⟩
      rw [tableOf, Std.HashMap.getD_insert]
      split
      · next hsame => rw [beq_iff_eq.mp hsame]
      · rfl
    | none =>
      have happend : log.append e = (.ok (), {
          arrivals := log.arrivals.push e
          places := log.places.insert e.aggregateId
            ((log.tableOf e.aggregateId).insert e.version log.size) }) := by
        simp [append, hfault, htaken, hplace]
      rw [happend]
      refine .inr ⟨rfl, rfl, rfl, rfl, fun aggregateId version => ?_⟩
      rw [place?, tableOf, Std.HashMap.getD_insert]
      by_cases haggregate : e.aggregateId = aggregateId
      · subst haggregate
        rw [if_pos (beq_self_eq_true _), Std.TreeMap.getElem?_insert]
        simp only [Std.LawfulEqCmp.compare_eq_iff_eq, true_and]
        rfl
      · rw [if_neg (by simpa using haggregate), if_neg (fun h => haggregate h.1)]
        rfl

/-! ### The index and the events -/

/-- The index and the events say the same, and no event is malformed. -/
structure IsIndexed (log : IndexedLog) : Prop where
  place? : ∀ aggregateId version place, log.place? aggregateId version = some place ↔
    ∃ e, log.arrivals[place]? = some e ∧ e.aggregateId = aggregateId ∧ e.version = version
  fault? : ∀ e ∈ log.arrivals, e.fault? = none

theorem isIndexed_empty : empty.IsIndexed where
  place? aggregateId version place := by
    simp [IndexedLog.place?, tableOf, empty]
  fault? := by
    simp [empty]

theorem IsIndexed.append {log : IndexedLog} (h : log.IsIndexed) (e : Event) :
    (log.append e).2.IsIndexed := by
  obtain ⟨-, -, harrivals, htables⟩ | ⟨-, hfault, hfree, harrivals, hplaces⟩ := log.append_cases e
  · refine ⟨fun aggregateId version place => ?_, harrivals ▸ h.fault?⟩
    rw [IndexedLog.place?, htables, harrivals]
    exact h.place? aggregateId version place
  · refine ⟨fun aggregateId version place => ?_, fun e' he' => ?_⟩
    · rw [hplaces, harrivals, Array.getElem?_push]
      by_cases hplace : place = log.arrivals.size
      · subst hplace
        rw [if_pos rfl]
        constructor
        · intro hsome
          split at hsome
          · next hkey => exact ⟨e, rfl, hkey⟩
          · obtain ⟨e', he', -⟩ := (h.place? aggregateId version _).mp hsome
            rw [Array.getElem?_eq_none (Nat.le_refl _)] at he'
            cases he'
        · rintro ⟨e', he', hkey⟩
          cases he'
          exact if_pos hkey
      · rw [if_neg hplace, ← h.place?]
        split
        · next hkey =>
          obtain ⟨rfl, rfl⟩ := hkey
          rw [hfree]
          exact ⟨fun hsome => absurd (Option.some.inj hsome).symm hplace, by rintro ⟨⟩⟩
        · rfl
    · rw [harrivals, Array.mem_push] at he'
      obtain he' | rfl := he'
      · exact h.fault? e' he'
      · exact hfault

namespace IsIndexed

variable {log : IndexedLog}

theorem mem_tableOf (h : log.IsIndexed) {aggregateId : String} {version : Count} :
    version ∈ log.tableOf aggregateId ↔
      ∃ e ∈ log.arrivals, e.aggregateId = aggregateId ∧ e.version = version := by
  rw [Std.TreeMap.mem_iff_isSome_getElem?, Option.isSome_iff_exists]
  constructor
  · rintro ⟨place, hplace⟩
    obtain ⟨e, he, hkey⟩ := (h.place? aggregateId version place).mp hplace
    exact ⟨e, Array.mem_of_getElem? he, hkey⟩
  · rintro ⟨e, he, hkey⟩
    obtain ⟨place, hplace⟩ := Array.mem_iff_getElem?.mp he
    exact ⟨place, (h.place? aggregateId version place).mpr ⟨e, hplace, hkey⟩⟩

/-- No event has come in twice. -/
theorem nodup (h : log.IsIndexed) : log.arrivals.toList.Nodup := by
  refine List.pairwise_iff_getElem.mpr fun i j hi hj hlt hsame => ?_
  have hplace : ∀ k (hk : k < log.arrivals.toList.length),
      log.place? log.arrivals.toList[k].aggregateId log.arrivals.toList[k].version = some k :=
    fun k hk => (h.place? _ _ k).mpr ⟨_, by simp, rfl, rfl⟩
  have hfirst := hplace i hi
  rw [hsame, hplace j hj] at hfirst
  exact absurd (Option.some.inj hfirst) (Nat.ne_of_gt hlt)

theorem mem_byAggregate (h : log.IsIndexed) {aggregateId : String} {first : Count} {e : Event} :
    e ∈ log.byAggregate aggregateId first ↔
      e ∈ log.arrivals ∧ e.aggregateId = aggregateId ∧ first ≤ e.version := by
  rw [byAggregate_eq, collect, List.mem_filterMap]
  constructor
  · rintro ⟨place, hplace, hsome⟩
    obtain ⟨⟨version, place⟩, hentry, rfl⟩ := List.mem_map.mp hplace
    obtain ⟨hentry, hfirst⟩ := List.mem_filter.mp hentry
    obtain ⟨e', he', haggregate, rfl⟩ := (h.place? aggregateId version place).mp
      (Std.TreeMap.mem_toList_iff_getElem?_eq_some.mp hentry)
    cases hsome.symm.trans he'
    exact ⟨Array.mem_of_getElem? hsome, haggregate, of_decide_eq_true hfirst⟩
  · rintro ⟨he, haggregate, hfirst⟩
    obtain ⟨place, hsome⟩ := Array.mem_iff_getElem?.mp he
    have hplace := (h.place? aggregateId e.version place).mpr ⟨e, hsome, haggregate, rfl⟩
    refine ⟨place, List.mem_map.mpr ⟨(e.version, place), List.mem_filter.mpr ⟨?_, ?_⟩, rfl⟩, hsome⟩
    · exact Std.TreeMap.mem_toList_iff_getElem?_eq_some.mpr hplace
    · exact decide_eq_true hfirst

theorem ascends_byAggregate (h : log.IsIndexed) (aggregateId : String) (first : Count) :
    (log.byAggregate aggregateId first).Pairwise fun e e' => e.version < e'.version := by
  have hversion : ∀ entry ∈ (log.tableOf aggregateId).toList, ∀ e,
      log.arrivals[entry.2]? = some e → e.version = entry.1 := by
    rintro ⟨version, place⟩ hentry e he
    obtain ⟨e', he', -, rfl⟩ := (h.place? aggregateId version place).mp
      (Std.TreeMap.mem_toList_iff_getElem?_eq_some.mp hentry)
    cases he.symm.trans he'
    rfl
  rw [byAggregate_eq, collect, List.pairwise_filterMap, List.pairwise_map]
  refine (Std.TreeMap.ordered_keys_toList.filter _).imp_of_mem ?_
  intro entry entry' hentry hentry' hlt e he e' he'
  rw [hversion _ (List.mem_filter.mp hentry).1 e he,
    hversion _ (List.mem_filter.mp hentry').1 e' he']
  exact Std.compare_eq_lt.mp hlt

/-- The history of an aggregate has just the events that are of it. -/
theorem perm_byAggregate (h : log.IsIndexed) (aggregateId : String) (first : Count) :
    (log.byAggregate aggregateId first).Perm (log.arrivals.toList.filter fun e =>
      e.aggregateId == aggregateId && decide (first ≤ e.version)) := by
  have hnodup : (log.byAggregate aggregateId first).Nodup :=
    (h.ascends_byAggregate aggregateId first).imp fun hlt hsame => by
      rw [hsame] at hlt
      exact UInt64.lt_irrefl _ hlt
  refine (List.perm_ext_iff_of_nodup hnodup (h.nodup.filter _)).mpr fun e => ?_
  rw [h.mem_byAggregate, List.mem_filter, Array.mem_toList_iff, Bool.and_eq_true, beq_iff_eq,
    decide_eq_true_iff]

theorem one_le_version (h : log.IsIndexed) {e : Event} (he : e ∈ log.arrivals) :
    1 ≤ e.version := by
  have hzero := Event.version_ne_zero_of_fault? (h.fault? e he)
  refine UInt64.le_iff_toNat_le.mpr (Nat.pos_of_ne_zero fun hnone => ?_)
  exact hzero (UInt64.toNat_inj.mp hnone)

/-- No event of an aggregate has a version before the first one. -/
theorem perm_byAggregate_one (h : log.IsIndexed) (aggregateId : String) :
    (log.byAggregate aggregateId 1).Perm
      (log.arrivals.toList.filter fun e => e.aggregateId == aggregateId) := by
  refine (h.perm_byAggregate aggregateId 1).trans (.of_eq (List.filter_congr fun e he => ?_))
  rw [decide_eq_true (h.one_le_version (Array.mem_toList_iff.mp he)), Bool.and_true]

theorem latestVersion?_eq_some (h : log.IsIndexed) {aggregateId : String} {version : Count} :
    log.latestVersion? aggregateId = some version ↔
      (∃ e ∈ log.arrivals, e.aggregateId = aggregateId ∧ e.version = version) ∧
        ∀ e ∈ log.arrivals, e.aggregateId = aggregateId → e.version ≤ version := by
  rw [latestVersion?_eq, Std.TreeMap.maxKey?_eq_some_iff_mem_and_forall, h.mem_tableOf]
  refine and_congr_right fun _ => ⟨fun hall e he haggregate => ?_, fun hall v hv => ?_⟩
  · have hin := h.mem_tableOf.mpr ⟨e, he, haggregate, rfl⟩
    exact (Std.LawfulOrderOrd.isLE_compare _ _).mp (hall _ hin)
  · obtain ⟨e, he, haggregate, rfl⟩ := h.mem_tableOf.mp hv
    exact (Std.LawfulOrderOrd.isLE_compare _ _).mpr (hall e he haggregate)

/-- The index gives the same latest version as the end of the history. -/
theorem latestVersion?_eq_lastVersion? (h : log.IsIndexed) (aggregateId : String) :
    log.latestVersion? aggregateId = log.lastVersion? aggregateId := by
  have hmem : ∀ e ∈ log.arrivals, e.aggregateId = aggregateId →
      e ∈ log.byAggregate aggregateId 1 := fun e he haggregate =>
    h.mem_byAggregate.mpr ⟨he, haggregate, h.one_le_version he⟩
  rw [lastVersion?]
  cases hlast : (log.byAggregate aggregateId 1).getLast? with
  | none =>
    rw [List.getLast?_eq_none_iff] at hlast
    cases hlatest : log.latestVersion? aggregateId with
    | none => rfl
    | some version =>
      obtain ⟨⟨e, he, haggregate, -⟩, -⟩ := h.latestVersion?_eq_some.mp hlatest
      have hin := hmem e he haggregate
      rw [hlast] at hin
      cases hin
  | some last =>
    obtain ⟨earlier, hhistory⟩ := List.getLast?_eq_some_iff.mp hlast
    have hin : last ∈ log.byAggregate aggregateId 1 := hhistory ▸ by simp
    obtain ⟨he, haggregate, -⟩ := h.mem_byAggregate.mp hin
    refine h.latestVersion?_eq_some.mpr ⟨⟨last, he, haggregate, rfl⟩, fun e he haggregate => ?_⟩
    have hascends := h.ascends_byAggregate aggregateId 1
    rw [hhistory, List.pairwise_append] at hascends
    have hin := hmem e he haggregate
    rw [hhistory, List.mem_append, List.mem_singleton] at hin
    obtain hbefore | rfl := hin
    · exact UInt64.le_of_lt (hascends.2.2 e hbefore last (List.mem_singleton.mpr rfl))
    · exact UInt64.le_refl _

end IsIndexed

end IndexedLog

end WorldClock
