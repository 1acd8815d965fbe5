import WorldClock.Event.Log
import WorldClock.Proofs.Identity

/-!
# The history of one world in a log

`EventLog.about` is what a log holds of one world, the latest event first. A world with one writer
gets its events in the order of their versions (`Ascends`), and then reading them by version is
reading them in the order in which they came in.
-/

namespace WorldClock

/-- Versions that grow from event to event, the latest event first; none is zero. -/
def Ascends (events : List Event) : Prop :=
  events.Pairwise (fun later earlier => earlier.version < later.version) ∧
    ∀ e ∈ events, e.version ≠ 0

theorem ascends_nil : Ascends [] := ⟨List.Pairwise.nil, by simp⟩

theorem ascends_cons {e : Event} {events : List Event} :
    Ascends (e :: events) ↔
      (e.version ≠ 0 ∧ ∀ earlier ∈ events, earlier.version < e.version) ∧ Ascends events := by
  simp only [Ascends, List.pairwise_cons, List.forall_mem_cons]
  constructor
  · rintro ⟨⟨hbelow, hpairwise⟩, hzero, hzeros⟩
    exact ⟨⟨hzero, hbelow⟩, hpairwise, hzeros⟩
  · rintro ⟨⟨hzero, hbelow⟩, hpairwise, hzeros⟩
    exact ⟨⟨hbelow, hpairwise⟩, hzero, hzeros⟩

theorem Event.version_ne_zero_of_fault? {e : Event} (h : e.fault? = none) : e.version ≠ 0 := by
  intro hzero
  simp [Event.fault?, hzero] at h

/-- An event that is made for a world is well-formed unless its version is zero. -/
theorem Event.fault?_ofWorld (world : WorldId) {version : Count} (now : Instant) (d : Details)
    (hversion : version ≠ 0) : (ofWorld world version now d).fault? = none := by
  have htext : world.text.isEmpty = false := by
    rw [← Bool.not_eq_true, String.isEmpty_iff]
    intro hempty
    have hlength := congrArg (fun s => s.toList.length) hempty
    simp [WorldId.text, Identifier.text, Identifier.length_chars] at hlength
  have htag : d.kind.tag.isEmpty = false := by
    cases d.kind <;> decide
  simp [fault?, ofWorld, hversion, htext, htag]

/-- The history of a world as it is read, from its events as they came in, the latest one first. -/
def historyOf (events : List Event) : List Event :=
  (events.reverse.filter fun e => decide ((1 : Count) ≤ e.version)).mergeSort
    fun a b => decide (a.version ≤ b.version)

@[simp]
theorem historyOf_nil : historyOf [] = [] := List.mergeSort_nil

theorem historyOf_eq {events : List Event} (h : Ascends events) :
    historyOf events = events.reverse := by
  have hall : events.reverse.filter (fun e => decide ((1 : Count) ≤ e.version)) =
      events.reverse := by
    refine List.filter_eq_self.mpr fun e he => decide_eq_true ?_
    have hversion := h.2 e (List.mem_reverse.mp he)
    rw [UInt64.le_iff_toNat_le]
    exact Nat.pos_of_ne_zero fun hzero => hversion (UInt64.toNat_inj.mp hzero)
  rw [historyOf, hall]
  refine List.mergeSort_of_pairwise ?_
  rw [List.pairwise_reverse]
  exact h.1.imp fun hlt => decide_eq_true (UInt64.le_of_lt hlt)

namespace EventLog

def about (log : EventLog) (world : WorldId) : List Event :=
  log.newestFirst.filter fun e => e.aggregateId == world.text

theorem hasVersion_eq (log : EventLog) (world : WorldId) (version : Count) :
    log.hasVersion world.text version = (log.about world).any (·.version == version) := by
  rw [hasVersion, about]
  induction log.newestFirst with
  | nil => rfl
  | cons e rest ih =>
    rw [List.any_cons, List.filter_cons, ih]
    by_cases h : e.aggregateId = world.text <;> simp [h]

/-- An event that the log takes is well-formed, has a version of its own, and comes first in the
history of its world; the histories of all other worlds stay as they are. -/
theorem append_eq_ok {log log' : EventLog} {e : Event} (h : log.append e = .ok log') :
    e.fault? = none ∧ log.hasVersion e.aggregateId e.version = false ∧
      ∀ world, log'.about world =
        if e.aggregateId = world.text then e :: log.about world else log.about world := by
  rw [append] at h
  split at h
  · cases h
  · next hfault =>
    split at h
    · cases h
    · next hfresh =>
      cases h
      refine ⟨hfault, by simpa using hfresh, fun world => ?_⟩
      rw [about, List.filter_cons]
      by_cases hworld : e.aggregateId = world.text <;> simp [hworld, about]

/-- What is read about a world is its own. -/
theorem byAggregate_eq_mergeSort (log : EventLog) (world : WorldId) (first : Count) :
    log.byAggregate world.text first =
      ((log.about world).reverse.filter fun e => decide (first ≤ e.version)).mergeSort
        fun a b => decide (a.version ≤ b.version) := by
  have hfilter : (log.events.filter fun e =>
      e.aggregateId == world.text && decide (first ≤ e.version)) =
        (log.about world).reverse.filter fun e => decide (first ≤ e.version) := by
    rw [about, ← List.filter_reverse, List.filter_filter]
    exact List.filter_congr fun e _ => Bool.and_comm _ _
  rw [byAggregate, hfilter]

theorem byAggregate_eq_historyOf (log : EventLog) (world : WorldId) :
    log.byAggregate world.text 1 = historyOf (log.about world) :=
  byAggregate_eq_mergeSort log world 1

/-- A history in the order of its versions is read as it came in. -/
theorem byAggregate_eq {log : EventLog} {world : WorldId} (h : Ascends (log.about world)) :
    log.byAggregate world.text 1 = (log.about world).reverse := by
  rw [byAggregate_eq_historyOf, historyOf_eq h]

theorem le_foldl_greatest (versions : List Count) (best : Option Count) {version : Count}
    (h : best = some version ∨ version ∈ versions) :
    version ≤ (versions.foldl
      (fun best v => match best with
        | none => some v
        | some b => some (if b ≤ v then v else b))
      best).getD 0 := by
  induction versions generalizing best version with
  | nil =>
    obtain rfl | hmem := h
    · exact UInt64.le_refl version
    · cases hmem
  | cons v versions ih =>
    rw [List.foldl_cons]
    cases best with
    | none =>
      obtain h | h := h
      · cases h
      · obtain rfl | hmem := List.mem_cons.mp h
        · exact ih _ (.inl rfl)
        · exact ih _ (.inr hmem)
    | some b =>
      have hgreater := ih (some (if b ≤ v then v else b)) (.inl rfl)
      have hbest : b ≤ if b ≤ v then v else b := by
        split
        · assumption
        · exact UInt64.le_refl b
      have hnew : v ≤ if b ≤ v then v else b := by
        split
        · exact UInt64.le_refl v
        · next hle => exact UInt64.le_of_lt (UInt64.not_le.mp hle)
      obtain h | h := h
      · cases h
        exact UInt64.le_trans hbest hgreater
      · obtain rfl | hmem := List.mem_cons.mp h
        · exact UInt64.le_trans hnew hgreater
        · exact ih _ (.inr hmem)

theorem le_greatestVersion? (events : List Event) :
    ∀ e ∈ events, e.version ≤ (greatestVersion? events).getD 0 :=
  fun _ he => le_foldl_greatest _ none (.inr (List.mem_map_of_mem he))

theorem greatestVersion?_cons {e : Event} {events : List Event}
    (h : ∀ earlier ∈ events, earlier.version < e.version) :
    greatestVersion? (e :: events) = some e.version := by
  induction events with
  | nil => rfl
  | cons earlier events ih =>
    have hlt : earlier.version < e.version := h earlier (by simp)
    have hskip : greatestVersion? (e :: earlier :: events) = greatestVersion? (e :: events) := by
      simp only [greatestVersion?, List.map_cons, List.foldl_cons, if_neg (UInt64.not_le.mpr hlt)]
    rw [hskip]
    exact ih fun earlier hearlier => h earlier (by simp [hearlier])

end EventLog

end WorldClock
