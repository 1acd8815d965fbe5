import WorldClock.Proofs.Event.Indexes

/-!
# What a log promises

Whoever sends events to a log counts on this: an event is taken unless it is malformed or its
version is taken, an event that is refused leaves no trace, and every read is one of the list of the
events that were taken, in the order in which they were. A log with an index keeps the promise
(`IndexedLog.keeps_contract`) whatever is sent to it and in whatever order, and it answers as a log
that goes through all its events each time (`IndexedLog.IsIndexed.append_toLog` and the lemmas after
it).
-/

namespace WorldClock

theorem Event.fault?_eq_none {e : Event} :
    e.fault? = none ↔ 1 ≤ e.version ∧ e.aggregateId ≠ "" ∧ e.tag ≠ "" := by
  have hversion : 1 ≤ e.version ↔ ¬e.version = 0 := by
    rw [UInt64.le_iff_toNat_le, ← UInt64.toNat_inj]
    exact Nat.pos_iff_ne_zero
  rw [fault?, hversion, ne_eq, ne_eq, ← String.isEmpty_iff, ← String.isEmpty_iff]
  split
  · next hzero => exact ⟨by rintro ⟨⟩, fun h => absurd hzero h.1⟩
  · next hzero =>
    split
    · next hempty => exact ⟨by rintro ⟨⟩, fun h => absurd hempty h.2.1⟩
    · next hempty =>
      split
      · next htag => exact ⟨by rintro ⟨⟩, fun h => absurd htag h.2.2⟩
      · next htag => exact ⟨fun _ => ⟨hzero, hempty, htag⟩, fun _ => rfl⟩

theorem Count.lawfulOrderMax : Std.LawfulOrderMax Count := by
  have hmax : ∀ a b : Count, a ≤ b ∧ max a b = b ∨ b ≤ a ∧ max a b = a := fun a b => by
    change a ≤ b ∧ (if a ≤ b then b else a) = b ∨ b ≤ a ∧ (if a ≤ b then b else a) = a
    by_cases h : a ≤ b
    · exact .inl ⟨h, if_pos h⟩
    · exact .inr ⟨UInt64.le_of_lt (UInt64.not_le.mp h), if_neg h⟩
  refine .of_max_le_iff (fun a b c => ?_) (fun a b => ?_)
  · obtain ⟨hle, heq⟩ | ⟨hle, heq⟩ := hmax a b
    · rw [heq]
      exact ⟨fun h => ⟨UInt64.le_trans hle h, h⟩, fun h => h.2⟩
    · rw [heq]
      exact ⟨fun h => ⟨h, UInt64.le_trans hle h⟩, fun h => h.1⟩
  · exact (hmax a b).elim (fun h => .inr h.2) fun h => .inl h.2

theorem EventLog.greatestVersion?_eq_max? (events : List Event) :
    greatestVersion? events = (events.map (·.version)).max? := by
  rw [greatestVersion?]
  cases events.map (·.version) with
  | nil => rfl
  | cons v versions => exact List.foldl_hom some fun _ _ => rfl

namespace IndexedLog

/-! ### Events that are sent to a log -/

/-- A log after some events were sent to it, one after another. -/
def appendAll (log : IndexedLog) (sent : List Event) : IndexedLog :=
  sent.foldl (fun log e => (log.append e).2) log

/-- Those of some events that a log takes when they are sent to it, one after another. -/
def taken (log : IndexedLog) : List Event → List Event
  | [] => []
  | e :: sent =>
    match log.append e with
    | (.ok (), log) => e :: log.taken sent
    | (.error _, log) => log.taken sent

theorem arrivals_appendAll (log : IndexedLog) (sent : List Event) :
    (log.appendAll sent).arrivals.toList = log.arrivals.toList ++ log.taken sent := by
  induction sent generalizing log with
  | nil => exact (List.append_nil _).symm
  | cons e sent ih =>
    have hrest := ih (log.append e).2
    obtain ⟨⟨error, hanswer⟩, -, harrivals, -⟩ | ⟨hanswer, -, -, harrivals, -⟩ := log.append_cases e
    · have htaken : log.taken (e :: sent) = (log.append e).2.taken sent := by
        rw [taken, ← Prod.eta (log.append e), hanswer]
      rw [htaken, ← harrivals]
      exact hrest
    · have htaken : log.taken (e :: sent) = e :: (log.append e).2.taken sent := by
        rw [taken, ← Prod.eta (log.append e), hanswer]
      rw [htaken, ← List.concat_append, List.concat_eq_append, ← Array.toList_push, ← harrivals]
      exact hrest

theorem IsIndexed.appendAll {log : IndexedLog} (h : log.IsIndexed) (sent : List Event) :
    (log.appendAll sent).IsIndexed := by
  induction sent generalizing log with
  | nil => exact h
  | cons e sent ih => exact ih (h.append e)

/-- An event is taken exactly if it is well-formed and its version is not taken. -/
theorem IsIndexed.append_eq_ok {log : IndexedLog} (h : log.IsIndexed) (e : Event) :
    (log.append e).1 = .ok () ↔ (1 ≤ e.version ∧ e.aggregateId ≠ "" ∧ e.tag ≠ "") ∧
      ∀ e' ∈ log.arrivals, ¬(e'.aggregateId = e.aggregateId ∧ e'.version = e.version) := by
  have hfree : log.place? e.aggregateId e.version = none ↔
      ∀ e' ∈ log.arrivals, ¬(e'.aggregateId = e.aggregateId ∧ e'.version = e.version) := by
    rw [Option.eq_none_iff_forall_ne_some]
    constructor
    · rintro hnone e' he' hkey
      obtain ⟨place, hplace⟩ := Array.mem_iff_getElem?.mp he'
      exact hnone place ((h.place? _ _ place).mpr ⟨e', hplace, hkey⟩)
    · rintro hfree place hsome
      obtain ⟨e', he', hkey⟩ := (h.place? _ _ place).mp hsome
      exact hfree e' (Array.mem_of_getElem? he') hkey
  rw [← Event.fault?_eq_none, ← hfree]
  obtain ⟨⟨error, hanswer⟩, hcause, -⟩ | ⟨hanswer, hfault, hplace, -⟩ := log.append_cases e
  · rw [hanswer]
    refine ⟨by rintro ⟨⟩, fun ⟨hfault, hplace⟩ => ?_⟩
    exact hcause.elim (absurd hfault) (absurd hplace)
  · exact ⟨fun _ => ⟨hfault, hplace⟩, fun _ => hanswer⟩

/-- Whatever is sent to an empty log, in whatever order: an event is taken exactly if it is
well-formed and no event of its aggregate and version was taken before, and one that is refused
leaves every read as it was. All reads are reads of the list of the events that were taken: the
history of an aggregate has its events from a version on, in the order of their versions; the other
two have the events that are asked for, in the order of their instants and then as they came in; and
the latest version is the greatest one, which is also that of the last event of the history. -/
theorem keeps_contract (sent : List Event) :
    let log := empty.appendAll sent
    let taken := empty.taken sent
    (∀ e, ((log.append e).1 = .ok () ↔
        (1 ≤ e.version ∧ e.aggregateId ≠ "" ∧ e.tag ≠ "") ∧
          ∀ e' ∈ taken, ¬(e'.aggregateId = e.aggregateId ∧ e'.version = e.version)) ∧
      ((log.append e).1 ≠ .ok () → (log.append e).2.Alike log)) ∧
    log.size = taken.length ∧
    (∀ aggregateId first,
      (log.byAggregate aggregateId first).Pairwise (fun e e' => e.version < e'.version) ∧
      (log.byAggregate aggregateId first).Perm
        (taken.filter fun e => e.aggregateId == aggregateId && decide (first ≤ e.version))) ∧
    (∀ tag first last, SortsByTime (log.byTag tag first last) (taken.filter fun e =>
      e.tag == tag && decide (first ≤ e.timestamp) && decide (e.timestamp ≤ last))) ∧
    (∀ first, ∃ feed, SortsByTime feed (taken.filter fun e => decide (first ≤ e.timestamp)) ∧
      ∀ limit, log.since first limit = feed.take limit) ∧
    ∀ aggregateId,
      (∀ version, log.latestVersion? aggregateId = some version ↔
        (∃ e ∈ taken, e.aggregateId = aggregateId ∧ e.version = version) ∧
          ∀ e ∈ taken, e.aggregateId = aggregateId → e.version ≤ version) ∧
      log.latestVersion? aggregateId = log.lastVersion? aggregateId := by
  intro log taken
  have h : log.IsIndexed := isIndexed_empty.appendAll sent
  have harrivals : log.arrivals.toList = taken := arrivals_appendAll empty sent
  have hevents : log.toLog.events = taken := by
    rw [← harrivals]
    exact List.reverse_reverse _
  have hmem : ∀ e, e ∈ log.arrivals ↔ e ∈ taken := fun e => by
    rw [← harrivals, Array.mem_toList_iff]
  refine ⟨fun e => ⟨?_, fun hrefused => ?_⟩, ?_, fun aggregateId first => ⟨?_, ?_⟩,
    fun tag first last => ?_, fun first => ?_, fun aggregateId => ⟨fun version => ?_, ?_⟩⟩
  · simp only [h.append_eq_ok, hmem]
  · obtain ⟨-, -, hsame, htables⟩ | ⟨hanswer, -⟩ := log.append_cases e
    · exact alike_of_tables hsame htables
    · exact absurd hanswer hrefused
  · rw [← harrivals]
    rfl
  · exact h.ascends_byAggregate aggregateId first
  · exact harrivals ▸ h.perm_byAggregate aggregateId first
  · rw [← hevents]
    exact sortsByTime_sortByTime _
  · rw [← hevents]
    exact ⟨_, sortsByTime_sortByTime _, fun _ => rfl⟩
  · simp only [h.latestVersion?_eq_some, hmem]
  · exact h.latestVersion?_eq_lastVersion? aggregateId

/-! ### The same log without an index -/

namespace IsIndexed

variable {log : IndexedLog}

theorem append_toLog (h : log.IsIndexed) (e : Event) :
    (log.append e).1 = (log.toLog.append e).map (fun _ => ()) ∧
      (log.append e).2.toLog = (log.toLog.append e).toOption.getD log.toLog := by
  have htaken : (log.tableOf e.aggregateId).contains e.version =
      log.toLog.hasVersion e.aggregateId e.version := by
    rw [Bool.eq_iff_iff, Std.TreeMap.contains_iff_mem, h.mem_tableOf, EventLog.hasVersion,
      List.any_eq_true]
    simp [toLog, and_comm]
  rw [IndexedLog.append, EventLog.append]
  cases e.fault? with
  | some fault => exact ⟨rfl, rfl⟩
  | none =>
    simp only [htaken]
    split
    · exact ⟨rfl, rfl⟩
    · refine ⟨rfl, ?_⟩
      simp [toLog, Except.toOption]

theorem byAggregate_toLog (h : log.IsIndexed) (aggregateId : String) (first : Count) :
    log.byAggregate aggregateId first = log.toLog.byAggregate aggregateId first := by
  have hperm : (log.byAggregate aggregateId first).Perm
      (log.toLog.byAggregate aggregateId first) := by
    refine (h.perm_byAggregate aggregateId first).trans ?_
    rw [EventLog.byAggregate, EventLog.events, toLog, List.reverse_reverse]
    exact (List.mergeSort_perm _ _).symm
  have hascends : (log.byAggregate aggregateId first).Pairwise fun e e' => e.version ≤ e'.version :=
    (h.ascends_byAggregate aggregateId first).imp UInt64.le_of_lt
  have hsorted : (log.toLog.byAggregate aggregateId first).Pairwise
      fun e e' => e.version ≤ e'.version := by
    refine (List.pairwise_mergeSort (fun a b c hab hbc => ?_) (fun a b => ?_) _).imp
      of_decide_eq_true
    · exact decide_eq_true (UInt64.le_trans (of_decide_eq_true hab) (of_decide_eq_true hbc))
    · simpa using UInt64.le_total a.version b.version
  refine List.Perm.eq_of_pairwise (fun e e' he he' hle hge => ?_) hascends hsorted hperm
  -- Two events of the aggregate with one version came in at one place.
  obtain ⟨hin, haggregate, -⟩ := h.mem_byAggregate.mp he
  obtain ⟨hin', haggregate', -⟩ := h.mem_byAggregate.mp (hperm.mem_iff.mpr he')
  obtain ⟨place, hplace⟩ := Array.mem_iff_getElem?.mp hin
  obtain ⟨place', hplace'⟩ := Array.mem_iff_getElem?.mp hin'
  have hfirst := (h.place? aggregateId e.version place).mpr ⟨e, hplace, haggregate, rfl⟩
  have hsecond := (h.place? aggregateId e.version place').mpr
    ⟨e', hplace', haggregate', UInt64.le_antisymm hge hle⟩
  cases hfirst.symm.trans hsecond
  exact Option.some.inj (hplace.symm.trans hplace')

theorem lastVersion?_toLog (h : log.IsIndexed) (aggregateId : String) :
    log.lastVersion? aggregateId = log.toLog.lastVersion? aggregateId := by
  rw [IndexedLog.lastVersion?, EventLog.lastVersion?, h.byAggregate_toLog]

theorem latestVersion?_toLog (h : log.IsIndexed) (aggregateId : String) :
    log.latestVersion? aggregateId = log.toLog.latestVersion? aggregateId := by
  have := Count.lawfulOrderMax
  have hmem : ∀ version, version ∈ (log.toLog.newestFirst.filter fun e =>
      e.aggregateId == aggregateId).map (·.version) ↔
        ∃ e ∈ log.arrivals, e.aggregateId = aggregateId ∧ e.version = version := by
    simp [toLog, and_assoc]
  refine Option.ext fun version => ?_
  rw [h.latestVersion?_eq_some, EventLog.latestVersion?, EventLog.greatestVersion?_eq_max?,
    List.max?_eq_some_iff, hmem]
  refine and_congr_right fun _ => ⟨fun hall v hv => ?_, fun hall e he haggregate => ?_⟩
  · obtain ⟨e, he, haggregate, rfl⟩ := (hmem v).mp hv
    exact hall e he haggregate
  · exact hall e.version ((hmem e.version).mpr ⟨e, he, haggregate, rfl⟩)

end IsIndexed

end IndexedLog

end WorldClock
