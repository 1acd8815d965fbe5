import Mathlib.Data.List.Infix
import Mathlib.Data.List.TakeWhile
import WorldClock.Event.History
import WorldClock.Proofs.LogContract

/-!
# Reading part of a history

A history is read up to a version or up to an instant, and reading may end at the first event beyond
the bound. With a version that always gives what a scan of the whole history gives, because the
index leads through a history in the order of its versions, in whatever order the events came in
(`IndexedLog.versions_exact`). With an instant an early exit gives the longest part of the history
from its start that lies within the bound, which is all of it exactly as long as the time stamps do
not go back. Otherwise some event is dated before one of a smaller version, and its own time stamp
is an instant at which an early exit misses it (`IndexedLog.upTo_exact`).
-/

namespace WorldClock

/-! ### Early exits -/

/-- The longest part of a history, from its start, in which all events have a property. -/
structure IsLongestStart (property : Event → Prop) (history part : List Event) : Prop where
  starts : part <+: history
  holds : ∀ e ∈ part, property e
  longest : ∀ other, other <+: history → (∀ e ∈ other, property e) → other <+: part

namespace ScanMode

variable {within : Event → Bool} {history : List Event}

/-- Where nothing beyond the bound comes before anything within it, reading may end at the first
event beyond it. -/
theorem select_earlyExit (h : history.Pairwise fun e e' => within e' = true → within e = true) :
    earlyExit.select within history = fullScan.select within history := by
  change history.takeWhile within = history.filter within
  induction history with
  | nil => rfl
  | cons e history ih =>
    obtain ⟨hfirst, hrest⟩ := List.pairwise_cons.mp h
    cases hwithin : within e with
    | true => rw [List.takeWhile_cons_of_pos hwithin, List.filter_cons_of_pos hwithin, ih hrest]
    | false =>
      have hbeyond : ∀ e' ∈ history, ¬within e' = true := fun e' he' hin => by
        rw [hfirst e' he' hin] at hwithin
        cases hwithin
      have hnot : ¬within e = true := Bool.not_eq_true _ ▸ hwithin
      rw [List.takeWhile_cons_of_neg hnot, List.filter_cons_of_neg hnot,
        List.filter_eq_nil_iff.mpr hbeyond]

/-- Nowhere else may it. -/
theorem pairwise_of_select_eq
    (h : earlyExit.select within history = fullScan.select within history) :
    history.Pairwise fun e e' => within e' = true → within e = true := by
  change history.takeWhile within = history.filter within at h
  induction history with
  | nil => exact .nil
  | cons e history ih =>
    by_cases hwithin : within e = true
    · rw [List.takeWhile_cons_of_pos hwithin, List.filter_cons_of_pos hwithin] at h
      exact List.pairwise_cons.mpr ⟨fun _ _ _ => hwithin, ih (List.cons.inj h).2⟩
    · rw [List.takeWhile_cons_of_neg hwithin, List.filter_cons_of_neg hwithin] at h
      have hbeyond := List.filter_eq_nil_iff.mp h.symm
      refine List.pairwise_cons.mpr ⟨fun e' he' hin => absurd hin (hbeyond e' he'), ?_⟩
      exact List.pairwise_of_forall_mem_list fun _ _ e' he' hin => absurd hin (hbeyond e' he')

theorem isLongestStart_select (within : Event → Bool) (history : List Event) :
    IsLongestStart (fun e => within e = true) history (earlyExit.select within history) where
  starts := List.takeWhile_prefix within
  holds _ he := List.mem_takeWhile_imp he
  longest other hother hall := by
    obtain ⟨rest, rfl⟩ := hother
    exact ⟨rest.takeWhile within, (List.takeWhile_append_of_pos hall).symm⟩

/-- An early exit reads nothing that a full scan leaves out. -/
theorem select_prefix (within : Event → Bool) (history : List Event) :
    earlyExit.select within history <+: fullScan.select within history := by
  obtain ⟨hstarts, hholds, -⟩ := isLongestStart_select within history
  have hkept := hstarts.filter within
  rwa [List.filter_eq_self.mpr hholds] at hkept

end ScanMode

/-! ### Bounds of a log -/

/-- The events of an aggregate among some events, in the order of their versions. -/
structure IsHistory (events : List Event) (aggregateId : String) (history : List Event) : Prop where
  perm : history.Perm (events.filter fun e => e.aggregateId == aggregateId)
  ascends : history.Pairwise fun e e' => e.version < e'.version

namespace IndexedLog

theorem isHistory_byAggregate (sent : List Event) (aggregateId : String) :
    IsHistory (empty.taken sent) aggregateId
      ((empty.appendAll sent).byAggregate aggregateId 1) := by
  have h : (empty.appendAll sent).IsIndexed := isIndexed_empty.appendAll sent
  have harrivals : (empty.appendAll sent).arrivals.toList = empty.taken sent :=
    arrivals_appendAll empty sent
  exact ⟨harrivals ▸ h.perm_byAggregate_one aggregateId, h.ascends_byAggregate aggregateId 1⟩

theorem IsIndexed.versions_eq {log : IndexedLog} (h : log.IsIndexed) (m : ScanMode)
    (aggregateId : String) (first last : Count) :
    log.versions m aggregateId first last =
      (log.byAggregate aggregateId first).filter fun e => decide (e.version ≤ last) := by
  have hfirst : ∀ e ∈ log.byAggregate aggregateId first, first ≤ e.version := fun e he =>
    (h.mem_byAggregate.mp he).2.2
  rw [versions]
  split
  · next hinverted =>
    refine (List.filter_eq_nil_iff.mpr fun e he hlast => ?_).symm
    have hbetween := UInt64.le_trans (hfirst e he) (of_decide_eq_true hlast)
    exact UInt64.not_le.mpr hinverted hbetween
  · cases m with
    | earlyExit =>
      refine ScanMode.select_earlyExit ((h.ascends_byAggregate aggregateId first).imp ?_)
      intro e e' hlt hlast
      exact decide_eq_true (UInt64.le_trans (UInt64.le_of_lt hlt) (of_decide_eq_true hlast))
    | fullScan =>
      refine List.filter_congr fun e he => ?_
      simp only [ScanMode.inRange, hfirst e he, true_and]

/-- Whatever was sent to a log, in whatever order: both ways of reading give the events of an
aggregate with versions in a range, each of them once and in the order of their versions. -/
theorem versions_exact (sent : List Event) (aggregateId : String) (first last : Count) :
    let log := empty.appendAll sent
    log.versions .earlyExit aggregateId first last = log.versions .fullScan aggregateId first last ∧
    ∀ m, (log.versions m aggregateId first last).Pairwise (fun e e' => e.version < e'.version) ∧
      (log.versions m aggregateId first last).Perm ((empty.taken sent).filter fun e =>
        e.aggregateId == aggregateId && decide (first ≤ e.version ∧ e.version ≤ last)) := by
  intro log
  have h : log.IsIndexed := isIndexed_empty.appendAll sent
  have harrivals : log.arrivals.toList = empty.taken sent := arrivals_appendAll empty sent
  refine ⟨?_, fun m => ?_⟩
  · rw [h.versions_eq, h.versions_eq]
  · rw [h.versions_eq, ← harrivals]
    refine ⟨(h.ascends_byAggregate aggregateId first).filter _, ?_⟩
    refine ((h.perm_byAggregate aggregateId first).filter _).trans (.of_eq ?_)
    rw [List.filter_filter]
    refine List.filter_congr fun e _ => ?_
    rw [Bool.decide_and, Bool.and_comm, Bool.and_assoc]

theorem IsIndexed.upTo_toLog {log : IndexedLog} (h : log.IsIndexed) (m : ScanMode)
    (aggregateId : String) (last : Instant) :
    log.upTo m aggregateId last = log.toLog.upTo m aggregateId last := by
  rw [upTo, EventLog.upTo, h.byAggregate_toLog]

/-- Whatever was sent to a log, in whatever order: a scan of the whole history of an aggregate gives
its events up to an instant, in the order of their versions, and an early exit the longest part of
the history from its start that lies up to the instant. The two agree at every instant if and only
if no event of the aggregate is dated before one of a smaller version. -/
theorem upTo_exact (sent : List Event) (aggregateId : String) :
    let log := empty.appendAll sent
    let history := log.byAggregate aggregateId 1
    IsHistory (empty.taken sent) aggregateId history ∧
    (∀ last,
      log.upTo .fullScan aggregateId last = history.filter (fun e => decide (e.timestamp ≤ last)) ∧
      IsLongestStart (fun e => e.timestamp ≤ last) history (log.upTo .earlyExit aggregateId last) ∧
      log.upTo .earlyExit aggregateId last <+: log.upTo .fullScan aggregateId last) ∧
    ((∀ last, log.upTo .earlyExit aggregateId last = log.upTo .fullScan aggregateId last) ↔
      history.Pairwise fun e e' => e.timestamp ≤ e'.timestamp) := by
  intro log history
  refine ⟨isHistory_byAggregate sent aggregateId, fun last => ⟨rfl, ?_, ?_⟩, ?_, ?_⟩
  · have hlongest := ScanMode.isLongestStart_select
      (fun e => decide (e.timestamp ≤ last)) history
    simp only [decide_eq_true_eq] at hlongest
    exact hlongest
  · exact ScanMode.select_prefix _ history
  · -- The time stamp of the later event is an instant at which both must read the earlier one.
    intro hagree
    refine List.pairwise_iff_getElem.mpr fun i j hi hj hlt => ?_
    have hpairwise := ScanMode.pairwise_of_select_eq (hagree history[j].timestamp)
    have hboth := List.pairwise_iff_getElem.mp hpairwise i j hi hj hlt
    exact of_decide_eq_true (hboth (decide_eq_true (Int.le_refl _)))
  · intro hordered last
    refine ScanMode.select_earlyExit (hordered.imp fun hle hlast => ?_)
    exact decide_eq_true (Int.le_trans hle (of_decide_eq_true hlast))

end IndexedLog

end WorldClock
