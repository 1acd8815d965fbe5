import WorldClock.Manager.Basic

/-!
# Updates of the registry

The registry refuses a change only if it turns a clock back or leaves a mark of a pause out of step
with the status. None of the changes that managers and tickers make does so, given that the marks
were in step before; so all these changes go through.
-/

namespace WorldClock

theorem Count.le_next (n : Count) : n ≤ n.next := by
  have := n.toNat_le_greatest
  rw [UInt64.le_iff_toNat_le, Count.toNat_next]
  omega

theorem Duration.le_add (a b : Duration) : a ≤ a.add b := by
  have := a.nanos_le
  change a.nanos ≤ (a.add b).nanos
  rw [Duration.nanos_add]
  omega

namespace World

theorem regression?_eq_none {old new : World} :
    old.regression? new = none ↔ new.id = old.id ∧ old.tickCount ≤ new.tickCount ∧
      old.gameTime ≤ new.gameTime ∧ new.markerFits = true := by
  rw [regression?]
  constructor
  · intro h
    split at h
    · cases h
    split at h
    · cases h
    split at h
    · cases h
    split at h
    · cases h
    · next hid hticks htime hmarker =>
      exact ⟨Decidable.not_not.mp hid, UInt64.not_lt.mp hticks, Nat.le_of_not_lt htime,
        by simpa using hmarker⟩
  · rintro ⟨hid, hticks, htime, hmarker⟩
    have hbackwards : ¬ new.gameTime < old.gameTime := Nat.not_lt_of_le htime
    rw [if_neg (not_not_intro hid), if_neg (UInt64.not_lt.mpr hticks), if_neg hbackwards, hmarker]
    rfl

/-- A change of a world's status, name, dilation or marks alone. -/
theorem regression?_of_totals {old new : World} (hid : new.id = old.id)
    (hticks : new.tickCount = old.tickCount) (htime : new.gameTime = old.gameTime)
    (hmarker : new.markerFits = true) : old.regression? new = none :=
  regression?_eq_none.mpr
    ⟨hid, hticks ▸ UInt64.le_refl _, htime ▸ Nat.le_refl _, hmarker⟩

theorem regression?_ticked {w : World} (h : w.markerFits = true) (delta : Duration)
    (now : Instant) : w.regression? (w.ticked delta now) = none :=
  regression?_eq_none.mpr ⟨rfl, Count.le_next _, Duration.le_add _ _, h⟩

theorem regression?_paused (w : World) (at_ : Instant) :
    w.regression? (paused at_ w) = none :=
  regression?_of_totals rfl rfl rfl (markerFits_paused at_ w)

theorem markerFits_resumed (order : SpawnOrder) (plan : Option CatchUpPlan) (w : World) :
    (Manager.resumed order plan w).markerFits = true := by
  cases plan <;> rfl

theorem regression?_resumed (order : SpawnOrder) (plan : Option CatchUpPlan) (w : World) :
    w.regression? (Manager.resumed order plan w) = none :=
  regression?_of_totals rfl rfl rfl (markerFits_resumed order plan w)

theorem markRunning_eq (w : World) :
    Ticker.markRunning w = w ∨
      w.status = .catchingUp ∧ Ticker.markRunning w = { w with status := .running } := by
  rw [Ticker.markRunning]
  split
  · next h => exact .inr ⟨h, rfl⟩
  · exact .inl rfl

theorem regression?_markRunning {w : World} (h : w.markerFits = true) :
    w.regression? (Ticker.markRunning w) = none := by
  obtain heq | ⟨hstatus, heq⟩ := markRunning_eq w
  · rw [heq]
    exact regression?_of_totals rfl rfl rfl h
  · rw [heq]
    refine regression?_of_totals rfl rfl rfl ?_
    rwa [markerFits, hstatus] at h

end World

namespace Registry

theorem update_eq {r : Registry} {world : WorldId} {old : World} (change : World → World)
    (hget : r.get? world = some old) (hregression : old.regression? (change old) = none) :
    r.update world change = .ok (change old, ⟨r.table.set world (change old)⟩) := by
  simp only [update, hget, hregression]

theorem update_eq_ok {r r' : Registry} {world : WorldId} {new : World} {change : World → World}
    (h : r.update world change = .ok (new, r')) :
    ∃ old, r.get? world = some old ∧ new = change old ∧ old.regression? new = none ∧
      r' = ⟨r.table.set world new⟩ := by
  rw [update] at h
  split at h
  · cases h
  · next old hget =>
    split at h
    · cases h
    · next hregression =>
      cases h
      exact ⟨old, hget, rfl, hregression, rfl⟩

theorem register_eq_ok {r r' : Registry} {w : World} (h : r.register w = .ok r') :
    r.get? w.id = none ∧ r' = ⟨r.table.set w.id w⟩ := by
  rw [register] at h
  split at h
  · cases h
  · next hnone =>
    cases h
    have hget : r.table.get? w.id = none := by simpa [WorldTable.contains] using hnone
    exact ⟨hget, rfl⟩

theorem register_eq {r : Registry} {w : World} (h : r.get? w.id = none) :
    r.register w = .ok ⟨r.table.set w.id w⟩ := by
  refine if_neg ?_
  have hget : r.table.get? w.id = none := h
  simp [WorldTable.contains, hget]

theorem get?_set (r : Registry) (world other : WorldId) (w : World) :
    (⟨r.table.set world w⟩ : Registry).get? other =
      if other = world then some w else r.get? other :=
  WorldTable.get?_set r.table world other w

variable {r r' : Registry}

theorem get?_eq_none_iff {a : WorldId} : r.get? a = none ↔ a ∉ r.worlds := by
  rw [get?, WorldTable.get?, List.lookup_eq_none_iff, worlds, WorldTable.worlds, List.mem_map]
  constructor
  · rintro hnone ⟨entry, hentry, rfl⟩
    exact bne_iff_ne.mp (hnone entry hentry) rfl
  · exact fun hnot entry hentry => bne_iff_ne.mpr fun heq => hnot ⟨entry, hentry, heq.symm⟩

theorem get?_update {world a : WorldId} {change : World → World} {new old : World}
    (hupdate : r.update world change = .ok (new, r')) (hold : r.get? a = some old) :
    a ≠ world ∧ r'.get? a = some old ∨
      a = world ∧ new = change old ∧ r'.get? a = some new ∧ new.markerFits = true := by
  obtain ⟨found, hfound, rfl, hregression, rfl⟩ := update_eq_ok hupdate
  by_cases hne : a = world
  · subst hne
    obtain rfl : old = found := Option.some.inj (hold.symm.trans hfound)
    exact .inr ⟨rfl, rfl, (get?_set _ _ _ _).trans (if_pos rfl),
      (World.regression?_eq_none.mp hregression).2.2.2⟩
  · exact .inl ⟨hne, ((get?_set _ _ _ _).trans (if_neg hne)).trans hold⟩

theorem worlds_update {world : WorldId} {change : World → World} {new : World}
    (hupdate : r.update world change = .ok (new, r')) : r'.worlds = r.worlds := by
  obtain ⟨old, hold, rfl, -, rfl⟩ := update_eq_ok hupdate
  have hmem : world ∈ r.worlds := Decidable.not_not.mp fun hnot =>
    Option.some_ne_none old (hold.symm.trans (get?_eq_none_iff.mpr hnot))
  exact (WorldTable.map_setEntry world _ r.table.entries).trans (if_pos hmem)

theorem get?_register {world old : World} {a : WorldId} (hregister : r.register world = .ok r')
    (hold : r.get? a = some old) : r'.get? a = some old := by
  obtain ⟨hnone, rfl⟩ := register_eq_ok hregister
  have hne : a ≠ world.id := by
    rintro rfl
    rw [hnone] at hold
    cases hold
  exact ((get?_set _ _ _ _).trans (if_neg hne)).trans hold

end Registry

end WorldClock
