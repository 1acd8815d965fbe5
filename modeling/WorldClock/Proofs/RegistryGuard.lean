import WorldClock.Proofs.Registry

/-!
# Writers of every kind

Whoever holds the registry may register a world in whatever state, and may change an entry by
whatever function: one that touches the identifier, the status, the mark of a pause and both totals
at once. What the registry looks at before it takes a changed entry is enough against all of them
(`guards_after`). Only the state in which a world is registered goes unchecked, so that its mark may
misfit until the first change that is accepted.
-/

namespace WorldClock

namespace Registry

/-- What a writer may ask of a registry. -/
inductive Request where
  | register (world : World)
  | update (world : WorldId) (change : World → World)

/-- The answer to a request, and the registry that the next request finds. -/
def serve (r : Registry) : Request → Except RegistryError Unit × Registry
  | .register world =>
    match r.register world with
    | .ok after => (.ok (), after)
    | .error e => (.error e, r)
  | .update world change =>
    match r.update world change with
    | .ok (_, after) => (.ok (), after)
    | .error e => (.error e, r)

def after (r : Registry) : List Request → Registry
  | [] => r
  | request :: requests => (r.serve request).2.after requests

/-- Every entry is that of the world under whose identifier it is kept. -/
def IsKeyed (r : Registry) : Prop :=
  ∀ a entry, r.get? a = some entry → entry.id = a

/-- One registry comes from another without loss: no entry is gone, no clock was turned back, and no
mark that fitted has come to misfit. -/
def Advances (r r' : Registry) : Prop :=
  ∀ a old, r.get? a = some old → ∃ new, r'.get? a = some new ∧ old.tickCount ≤ new.tickCount ∧
    old.gameTime ≤ new.gameTime ∧ (old.markerFits = true → new.markerFits = true)

variable {r r' r'' : Registry}

theorem advances_refl (r : Registry) : r.Advances r :=
  fun _ old hold => ⟨old, hold, UInt64.le_refl _, Nat.le_refl _, id⟩

theorem Advances.trans (h : r.Advances r') (h' : r'.Advances r'') : r.Advances r'' := by
  intro a old hold
  obtain ⟨entry, hentry, hticks, htime, hfits⟩ := h a old hold
  obtain ⟨new, hnew, hticks', htime', hfits'⟩ := h' a entry hentry
  exact ⟨new, hnew, UInt64.le_trans hticks hticks', Nat.le_trans htime htime',
    fun h => hfits' (hfits h)⟩

theorem Advances.worlds_subset (h : r.Advances r') : r.worlds ⊆ r'.worlds := by
  intro a hmem
  refine Decidable.not_not.mp fun hnot => ?_
  have hnone := get?_eq_none_iff.mpr hnot
  cases hold : r.get? a with
  | none => exact get?_eq_none_iff.mp hold hmem
  | some old =>
    obtain ⟨new, hnew, -⟩ := h a old hold
    exact Option.some_ne_none new (hnew.symm.trans hnone)

/-! ### One request -/

/-- A request is refused and has no effect, or it puts one entry: a new one that is registered, or
one that is no regression of the entry it takes the place of. -/
theorem serve_cases (r : Registry) (request : Request) :
    (∃ e, r.serve request = (.error e, r)) ∨
      (∃ world, request = .register world ∧ r.get? world.id = none ∧
        r.serve request = (.ok (), ⟨r.table.set world.id world⟩)) ∨
      ∃ world change old, request = .update world change ∧ r.get? world = some old ∧
        old.regression? (change old) = none ∧
        r.serve request = (.ok (), ⟨r.table.set world (change old)⟩) := by
  cases request with
  | register world =>
    cases hregister : r.register world with
    | error e => exact .inl ⟨e, by simp only [serve, hregister]⟩
    | ok after =>
      obtain ⟨hnone, rfl⟩ := register_eq_ok hregister
      exact .inr (.inl ⟨world, rfl, hnone, by simp only [serve, hregister]⟩)
  | update world change =>
    cases hupdate : r.update world change with
    | error e => exact .inl ⟨e, by simp only [serve, hupdate]⟩
    | ok result =>
      obtain ⟨new, after⟩ := result
      obtain ⟨old, hold, rfl, hregression, rfl⟩ := update_eq_ok hupdate
      exact .inr (.inr ⟨world, change, old, rfl, hold, hregression, by simp only [serve, hupdate]⟩)

theorem serve_of_error {request : Request} {e : RegistryError}
    (h : (r.serve request).1 = .error e) : (r.serve request).2 = r := by
  obtain ⟨e', heq⟩ | ⟨world, -, -, heq⟩ | ⟨world, change, old, -, -, -, heq⟩ :=
    serve_cases r request
  · rw [heq]
  · rw [heq] at h
    cases h
  · rw [heq] at h
    cases h

theorem serve_update_of_ok {world : WorldId} {change : World → World}
    (h : (r.serve (.update world change)).1 = .ok ()) :
    ∃ new, r.update world change = .ok (new, (r.serve (.update world change)).2) := by
  cases hupdate : r.update world change with
  | error e =>
    rw [serve, hupdate] at h
    cases h
  | ok result =>
    obtain ⟨new, after⟩ := result
    exact ⟨new, by simp only [serve, hupdate]⟩

theorem serve_update_eq_ok_iff {world : WorldId} {change : World → World} {old : World}
    (hold : r.get? world = some old) :
    (r.serve (.update world change)).1 = .ok () ↔ old.regression? (change old) = none := by
  constructor
  · intro hok
    obtain ⟨new, hupdate⟩ := serve_update_of_ok hok
    obtain ⟨found, hfound, rfl, hregression, -⟩ := update_eq_ok hupdate
    rwa [Option.some.inj (hold.symm.trans hfound)]
  · intro hregression
    simp only [serve, update_eq change hold hregression]

theorem IsKeyed.serve (h : r.IsKeyed) (request : Request) : (r.serve request).2.IsKeyed := by
  intro a entry hentry
  obtain ⟨e, heq⟩ | ⟨world, -, -, heq⟩ | ⟨world, change, old, -, hold, hregression, heq⟩ :=
    serve_cases r request
  · rw [heq] at hentry
    exact h a entry hentry
  · rw [heq, get?_set] at hentry
    split at hentry
    · next hsame =>
      cases hentry
      exact hsame.symm
    · exact h a entry hentry
  · rw [heq, get?_set] at hentry
    split at hentry
    · next hsame =>
      cases hentry
      calc (change old).id = old.id := (World.regression?_eq_none.mp hregression).1
        _ = world := h world old hold
        _ = a := hsame.symm
    · exact h a entry hentry

theorem advances_serve (r : Registry) (request : Request) : r.Advances (r.serve request).2 := by
  obtain ⟨e, heq⟩ | ⟨world, -, hnone, heq⟩ | ⟨world, change, found, -, hfound, hregression, heq⟩ :=
    serve_cases r request
  · rw [heq]
    exact advances_refl r
  · rw [heq]
    intro a old hold
    have hne : a ≠ world.id := by
      rintro rfl
      exact Option.some_ne_none old (hold.symm.trans hnone)
    refine ⟨old, ?_, UInt64.le_refl _, Nat.le_refl _, id⟩
    rw [get?_set, if_neg hne, hold]
  · rw [heq]
    intro a old hold
    by_cases hsame : a = world
    · subst hsame
      obtain rfl : old = found := Option.some.inj (hold.symm.trans hfound)
      obtain ⟨-, hticks, htime, hfits⟩ := World.regression?_eq_none.mp hregression
      exact ⟨change old, by rw [get?_set, if_pos rfl], hticks, htime, fun _ => hfits⟩
    · refine ⟨old, ?_, UInt64.le_refl _, Nat.le_refl _, id⟩
      rw [get?_set, if_neg hsame, hold]

/-! ### All requests -/

theorem isKeyed_after (h : r.IsKeyed) (requests : List Request) : (r.after requests).IsKeyed := by
  induction requests generalizing r with
  | nil => exact h
  | cons request requests ih => exact ih (h.serve request)

theorem advances_after (r : Registry) (requests : List Request) :
    r.Advances (r.after requests) := by
  induction requests generalizing r with
  | nil => exact advances_refl r
  | cons request requests ih => exact (advances_serve r request).trans (ih _)

theorem isKeyed_empty : empty.IsKeyed := fun _ _ hentry => nomatch hentry

theorem markerFits_iff {entry : World} :
    entry.markerFits = true ↔ (entry.pausedAt.isSome ↔ entry.status = .paused) := by
  rw [World.markerFits, beq_iff_eq, Bool.eq_iff_iff, decide_eq_true_iff]
  exact Iff.comm

/-- Whatever the requests before and the requests to come, and whatever the changes they make: an
entry is that of its world; no world is lost and no clock turned back; a refused request changes
nothing; an update of an entry is accepted if it keeps the identifier, turns no clock back and lets
the mark of a pause fit, and only then; it changes nothing but this entry, and from then on the
entry carries the mark of a pause exactly when it is paused. -/
theorem guards_after (past future : List Request) :
    let r := empty.after past
    (∀ a entry, r.get? a = some entry → entry.id = a) ∧
      r.worlds ⊆ (r.after future).worlds ∧
      (∀ a old, r.get? a = some old → ∃ new, (r.after future).get? a = some new ∧
        old.tickCount ≤ new.tickCount ∧ old.gameTime ≤ new.gameTime) ∧
      (∀ request e, (r.serve request).1 = .error e → (r.serve request).2 = r) ∧
      (∀ world change old, r.get? world = some old →
        ((r.serve (.update world change)).1 = .ok () ↔
          (change old).id = old.id ∧ old.tickCount ≤ (change old).tickCount ∧
            old.gameTime ≤ (change old).gameTime ∧
            ((change old).pausedAt.isSome ↔ (change old).status = .paused))) ∧
      ∀ world change, (r.serve (.update world change)).1 = .ok () →
        let r' := (r.serve (.update world change)).2
        (∃ old, r.get? world = some old ∧ r'.get? world = some (change old)) ∧
          r'.worlds = r.worlds ∧ (∀ a, a ≠ world → r'.get? a = r.get? a) ∧
          ∃ entry, (r'.after future).get? world = some entry ∧
            (entry.pausedAt.isSome ↔ entry.status = .paused) := by
  intro r
  refine ⟨isKeyed_after isKeyed_empty past, (advances_after r future).worlds_subset, ?_,
    fun _ _ => serve_of_error, ?_, ?_⟩
  · intro a old hold
    obtain ⟨new, hnew, hticks, htime, -⟩ := advances_after r future a old hold
    exact ⟨new, hnew, hticks, htime⟩
  · intro world change old hold
    rw [serve_update_eq_ok_iff hold, World.regression?_eq_none, markerFits_iff]
  · intro world change hok r'
    obtain ⟨new, hupdate⟩ := serve_update_of_ok hok
    obtain ⟨old, hold, rfl, hregression, hset⟩ := update_eq_ok hupdate
    have hget (a : WorldId) : r'.get? a = if a = world then some (change old) else r.get? a := by
      change (r.serve (.update world change)).2.get? a = _
      rw [hset, get?_set]
    have hnew : r'.get? world = some (change old) := (hget world).trans (if_pos rfl)
    have hfits : (change old).markerFits = true :=
      (World.regression?_eq_none.mp hregression).2.2.2
    refine ⟨⟨old, hold, hnew⟩, worlds_update hupdate,
      fun a hne => (hget a).trans (if_neg hne), ?_⟩
    obtain ⟨entry, hentry, -, -, hkeeps⟩ := advances_after r' future world (change old) hnew
    exact ⟨entry, hentry, markerFits_iff.mp (hkeeps hfits)⟩

/-- The state in which a world is registered is its owner's: here it is paused and carries no mark.
A change that leaves it so is refused, and one that resumes it is accepted. -/
example :
    let sleeper := { World.starting ⟨⟨0⟩⟩ "Sleeper" Binary64.one .epoch with status := .paused }
    let r := empty.after [.register sleeper]
    r.get? sleeper.id = some sleeper ∧
      (r.serve (.update sleeper.id (World.ticked Duration.zero .epoch))).1 =
        .error (.regression sleeper.id (.markerMisfit .paused)) ∧
      (r.serve (.update sleeper.id fun w => { w with status := .running })).1 = .ok () :=
  ⟨rfl, rfl, rfl⟩

end Registry

end WorldClock
