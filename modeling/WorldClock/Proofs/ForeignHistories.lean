import WorldClock.Manager.Move
import WorldClock.Proofs.Manager.Courses
import WorldClock.Proofs.Rebuilding

/-!
# Histories without a world event

Others may append events to the history of a world that timelines pass over. A world about which the
log holds such events and no others is restored as one of which nothing is known
(`restore_eq_none_iff`), and a spawn goes on to create it. The creation has version 1, whatever the
log holds: if another event has this version already, the creation is refused, nothing has changed,
and the next spawn comes to the same end (`Manager.founds_iff`).
-/

namespace WorldClock

namespace EventLog

/-- A log to which some events were sent. One that is refused leaves no trace. -/
def appendAll (log : EventLog) : List Event → EventLog
  | [] => log
  | e :: sent =>
    match log.append e with
    | .ok log => log.appendAll sent
    | .error _ => log.appendAll sent

theorem version_ne_zero_of_append {log log' : EventLog} {e : Event}
    (happend : log.append e = .ok log') (h : ∀ stored ∈ log.newestFirst, stored.version ≠ 0) :
    ∀ stored ∈ log'.newestFirst, stored.version ≠ 0 := by
  have hfault := (append_eq_ok happend).1
  rw [append, hfault] at happend
  simp only at happend
  split at happend
  · cases happend
  · cases happend
    exact List.forall_mem_cons.mpr ⟨Event.version_ne_zero_of_fault? hfault, h⟩

theorem version_ne_zero_of_appendAll {log : EventLog} (sent : List Event)
    (h : ∀ stored ∈ log.newestFirst, stored.version ≠ 0) :
    ∀ stored ∈ (log.appendAll sent).newestFirst, stored.version ≠ 0 := by
  induction sent generalizing log with
  | nil => exact h
  | cons e sent ih =>
    rw [appendAll]
    split
    · next log' happend => exact ih (version_ne_zero_of_append happend h)
    · exact ih h

/-- No event of a world is left out when its history is read: all versions start from 1. -/
theorem mem_byAggregate_iff {log : EventLog} (h : ∀ stored ∈ log.newestFirst, stored.version ≠ 0)
    {world : WorldId} {e : Event} : e ∈ log.byAggregate world.text 1 ↔ e ∈ log.about world := by
  rw [byAggregate_eq_historyOf, historyOf, List.mem_mergeSort, List.mem_filter, List.mem_reverse,
    and_iff_left_iff_imp]
  intro hmem
  have hversion := h e (List.mem_filter.mp hmem).1
  rw [decide_eq_true_iff, UInt64.le_iff_toNat_le]
  exact Nat.pos_of_ne_zero fun hzero => hversion (UInt64.toNat_inj.mp hzero)

theorem append_ofWorld_one (log : EventLog) (world : WorldId) (now : Instant) (d : Details) :
    log.append (Event.ofWorld world 1 now d) =
      if ∃ stored ∈ log.about world, stored.version = 1 then .error (.conflict world.text 1)
      else .ok ⟨Event.ofWorld world 1 now d :: log.newestFirst⟩ := by
  have hversion : log.hasVersion (Event.ofWorld world 1 now d).aggregateId
      (Event.ofWorld world 1 now d).version = true ↔
        ∃ stored ∈ log.about world, stored.version = 1 := by
    change log.hasVersion world.text 1 = true ↔ _
    rw [hasVersion_eq, List.any_eq_true]
    simp only [beq_iff_eq]
  rw [append, Event.fault?_ofWorld world now d (by decide)]
  simp only [hversion]
  rfl

end EventLog

/-! ### Restoring -/

theorem Timelines.foldlM_of_foreign {history : List Event} (h : ∀ e ∈ history, e.kind? = none)
    (ts : Timelines) : history.foldlM handle ts = .ok ts := by
  induction history generalizing ts with
  | nil => rfl
  | cons e history ih =>
    obtain ⟨hkind, hrest⟩ := List.forall_mem_cons.mp h
    exact foldlM_cons_eq_ok.mpr ⟨ts, by rw [handle, hkind], ih hrest ts⟩

/-- Restoring finds nothing exactly if there is no world event in the history, however many others
there are. -/
theorem restore_eq_none_iff {history : List Event} {world : WorldId}
    (habout : ∀ e ∈ history, WorldId.ofText? e.aggregateId = some world) :
    restore history world = .ok none ↔ ∀ e ∈ history, e.kind? = none := by
  constructor
  · intro hnone
    obtain ⟨ts, hfold⟩ := foldlM_of_restore hnone
    rw [restore_of_foldlM hfold, Except.ok.injEq, Option.map_eq_none_iff] at hnone
    have hthrough := Timelines.leadsThrough_of_foldlM habout hfold
    rw [hnone] at hthrough
    exact hthrough.kind?_eq_none
  · intro hforeign
    rw [restore_of_foldlM (Timelines.foldlM_of_foreign hforeign _)]
    rfl

theorem EventLog.restore_eq_none_iff {log : EventLog}
    (hlog : ∀ stored ∈ log.newestFirst, stored.version ≠ 0) (world : WorldId) :
    restore (log.byAggregate world.text 1) world = .ok none ↔
      ∀ e ∈ log.about world, e.kind? = none := by
  have habout : ∀ e ∈ log.byAggregate world.text 1, WorldId.ofText? e.aggregateId = some world := by
    intro e he
    rw [aggregateId_of_mem_byAggregate he, WorldId.ofText?_text]
  rw [WorldClock.restore_eq_none_iff habout]
  simp only [mem_byAggregate_iff hlog]

/-! ### Spawning -/

namespace Manager

variable {p : Manager} {order : SpawnOrder}

/-- A restored world is never taken for one that is still to be created. -/
theorem restoreFrom_eq_create_iff (m : Moment) (history : List Event) :
    p.restoreFrom m order history = p.create m order ↔
      restore history order.world = .ok none := by
  rw [restoreFrom]
  split
  · next hrestore =>
    refine ⟨fun h => ?_, fun h => by rw [hrestore] at h; cases h⟩
    cases congrArg Manager.errand h
  · next hrestore => exact ⟨fun _ => hrestore, fun _ => rfl⟩
  · next world events hrestore =>
    refine ⟨fun h => ?_, fun h => by rw [hrestore] at h; cases h⟩
    have herrand := congrArg Manager.errand h
    simp only at herrand
    split at herrand
    · cases herrand
    · rw [resume] at herrand
      split at herrand <;> cases herrand

theorem run_creating_of_conflict (m m' : Moment) {e : Event} {failure : LogError}
    (hrefused : p.surroundings.log.append e = .error failure) :
    (p.spawnAt order (.creating (Filing.start e))).run [(m, .file), (m', .conclude .answered)] =
      p.finish (.error (.log failure)) := by
  have hfile : (p.spawnAt order (.creating (Filing.start e))).apply m .file =
      p.spawnAt order (.creating ⟨e, some (.error failure)⟩) := by
    simp only [apply, file, spawnAt, Surroundings.file, Filing.file, Filing.start, hrefused]
  change ((p.spawnAt order (.creating (Filing.start e))).apply m .file).apply m'
    (.conclude .answered) = _
  rw [hfile]
  rfl

/-- Whatever a log holds, and whatever process reads it to spawn a world that is not registered: the
spawn goes on to create the world exactly if no event of the world is a world event. Its creation is
then refused exactly if one of those other events has version 1; the spawn fails, and the process is
left as it was, so that no later spawn will do better. -/
theorem founds_iff {sent : List Event} (hlog : p.surroundings.log = EventLog.empty.appendAll sent)
    (herrand : p.errand = some (.spawn order .readingHistory)) (m m' m'' : Moment) :
    let log := p.surroundings.log
    let stored := log.about order.world
    let q := p.apply m (.read none)
    let creation := order.creation order.world 1 m.wall false
    let creating := p.spawnAt order (.creating (Filing.start creation))
    (restore (log.byAggregate order.world.text 1) order.world = .ok none ↔
        ∀ e ∈ stored, e.kind? = none) ∧
      (q = creating ↔ ∀ e ∈ stored, e.kind? = none) ∧
      (q = creating → (∃ e ∈ stored, e.version = 1) →
        q.run [(m', .file), (m'', .conclude .answered)] =
          p.finish (.error (.log (.conflict order.world.text 1)))) ∧
      (q = creating → (¬ ∃ e ∈ stored, e.version = 1) →
        log.append creation = .ok ⟨creation :: log.newestFirst⟩) := by
  intro log stored q creation creating
  have hversions : ∀ e ∈ log.newestFirst, e.version ≠ 0 := by
    change ∀ e ∈ p.surroundings.log.newestFirst, _
    rw [hlog]
    exact EventLog.version_ne_zero_of_appendAll sent fun _ he => absurd he List.not_mem_nil
  have hrestore := EventLog.restore_eq_none_iff hversions order.world
  have hread : q = p.restoreFrom m order (log.byAggregate order.world.text 1) := by
    change p.read m none = _
    rw [read, herrand]
  have happend := log.append_ofWorld_one order.world m.wall
    (.created ⟨order.name, order.dilation, false⟩)
  refine ⟨hrestore, ?_, fun hcreating htaken => ?_, fun _ hfree => happend.trans (if_neg hfree)⟩
  · rw [hread, ← hrestore]
    exact restoreFrom_eq_create_iff m _
  · rw [hcreating]
    exact run_creating_of_conflict m' m'' (happend.trans (if_pos htaken))

/-- An event of a world that is no world event. -/
def renamed (world : WorldId) : Event :=
  { Event.ofWorld world 1 .epoch (.resumed ⟨0, 0⟩) with tag := "world.renamed" }

/-- The log of a world holds nothing but a renaming. A spawn of the world takes the log for one
without any event of it, and fails. -/
theorem founds_iff_of_renamed :
    let p := (start .standard (EventLog.empty.appendAll [renamed ⟨⟨0⟩⟩]) none).apply (momentAt 0)
      (.spawn ⟨⟨⟨0⟩⟩, "world", .one⟩)
    p.surroundings.log.about ⟨⟨0⟩⟩ = [renamed ⟨⟨0⟩⟩] ∧
      restore (p.surroundings.log.byAggregate (WorldId.text ⟨⟨0⟩⟩) 1) ⟨⟨0⟩⟩ = .ok none ∧
      (p.apply (momentAt 0) (.read none)).run
          [(momentAt 0, .file), (momentAt 0, .conclude .answered)] =
        p.finish (.error (.log (.conflict (WorldId.text ⟨⟨0⟩⟩) 1))) := by
  have hp : (start .standard (EventLog.empty.appendAll [renamed ⟨⟨0⟩⟩]) none).apply (momentAt 0)
      (.spawn ⟨⟨⟨0⟩⟩, "world", .one⟩) =
        (start .standard (EventLog.empty.appendAll [renamed ⟨⟨0⟩⟩]) none).spawnAt
          ⟨⟨⟨0⟩⟩, "world", .one⟩ .readingHistory := by
    refine apply_spawn_of_unknown rfl rfl rfl ?_
    rw [SpawnOrder.IsAccepted]
    decide +kernel
  rw [hp]
  intro p
  have hlog : p.surroundings.log = EventLog.empty.appendAll [renamed ⟨⟨0⟩⟩] := rfl
  have herrand : p.errand = some (.spawn ⟨⟨⟨0⟩⟩, "world", .one⟩ .readingHistory) := rfl
  have hstored : p.surroundings.log.about ⟨⟨0⟩⟩ = [renamed ⟨⟨0⟩⟩] := by decide +kernel
  have hforeign : ∀ e ∈ p.surroundings.log.about ⟨⟨0⟩⟩, e.kind? = none := by
    rw [hstored]
    decide +kernel
  have htaken : ∃ e ∈ p.surroundings.log.about ⟨⟨0⟩⟩, e.version = 1 :=
    ⟨renamed ⟨⟨0⟩⟩, hstored ▸ List.mem_singleton_self _, rfl⟩
  clear_value p
  obtain ⟨hrestore, hfounds, hrefused, -⟩ :=
    founds_iff hlog herrand (momentAt 0) (momentAt 0) (momentAt 0)
  exact ⟨hstored, hrestore.mpr hforeign, hrefused (hfounds.mpr hforeign) htaken⟩

end Manager

end WorldClock
