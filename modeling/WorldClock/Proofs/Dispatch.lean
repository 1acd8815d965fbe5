import Mathlib.Data.List.Forall2
import WorldClock.Projection

/-!
# Handing events on

If every projection of a dispatcher takes some events, each folding them into its own state, then
the dispatcher takes them too, and its projections are left as each would be alone
(`Dispatcher.projectAll_of_takes`).
-/

namespace WorldClock

theorem foldlM_cons_eq_ok {σ ε α : Type} {f : σ → α → Except ε σ} {s t : σ} {x : α} {xs : List α} :
    (x :: xs).foldlM f s = .ok t ↔ ∃ next, f s x = .ok next ∧ xs.foldlM f next = .ok t := by
  rw [List.foldlM_cons]
  cases f s x with
  | error e => exact ⟨by rintro ⟨⟩, by rintro ⟨next, ⟨⟩, -⟩⟩
  | ok next => exact ⟨fun h => ⟨next, rfl, h⟩, by rintro ⟨_, ⟨⟩, h⟩; exact h⟩

theorem map_eq_ok {ε α β : Type} {f : α → β} {r : Except ε α} {b : β} :
    r.map f = .ok b ↔ ∃ a, r = .ok a ∧ f a = b := by
  cases r with
  | error e => exact ⟨by rintro ⟨⟩, by rintro ⟨a, ⟨⟩, -⟩⟩
  | ok a => exact ⟨by rintro ⟨⟩; exact ⟨a, rfl, rfl⟩, by rintro ⟨_, ⟨⟩, rfl⟩; rfl⟩

/-- One projection comes from another by taking some events. -/
def Projection.Takes {σ : Type} (events : List Event) (p p' : Projection σ) : Prop :=
  ∃ state, events.foldlM p.handle p.state = .ok state ∧ p' = { p with state := state }

namespace Dispatcher

variable {σ : Type}

theorem takes_cons {e : Event} {events : List Event} {p p' : Projection σ}
    (h : p.Takes (e :: events) p') : ∃ next, p.Takes [e] next ∧ next.Takes events p' := by
  obtain ⟨state, hfold, rfl⟩ := h
  obtain ⟨first, hfirst, hrest⟩ := foldlM_cons_eq_ok.mp hfold
  exact ⟨{ p with state := first }, ⟨first, foldlM_cons_eq_ok.mpr ⟨first, hfirst, rfl⟩, rfl⟩,
    ⟨state, hrest, rfl⟩⟩

theorem feed_of_takes {e : Event} {projections projections' : List (Projection σ)}
    (h : List.Forall₂ (Projection.Takes [e]) projections projections') :
    feed e projections = (projections', none) := by
  induction h with
  | nil => rfl
  | cons htakes _ ih =>
    obtain ⟨state, hfold, rfl⟩ := htakes
    obtain ⟨first, hfirst, hlast⟩ := foldlM_cons_eq_ok.mp hfold
    cases hlast
    simp only [feed, hfirst, ih]

theorem takes_nil {projections projections' : List (Projection σ)}
    (h : List.Forall₂ (Projection.Takes []) projections projections') :
    projections = projections' := by
  induction h with
  | nil => rfl
  | cons htakes _ ih =>
    obtain ⟨state, hfold, rfl⟩ := htakes
    cases hfold
    rw [ih]

theorem exists_between {e : Event} {events : List Event}
    {projections projections' : List (Projection σ)}
    (h : List.Forall₂ (Projection.Takes (e :: events)) projections projections') :
    ∃ next, List.Forall₂ (Projection.Takes [e]) projections next ∧
      List.Forall₂ (Projection.Takes events) next projections' := by
  induction h with
  | nil => exact ⟨[], .nil, .nil⟩
  | cons htakes _ ih =>
    obtain ⟨p, hp, hp'⟩ := takes_cons htakes
    obtain ⟨next, hnext, hnext'⟩ := ih
    exact ⟨p :: next, .cons hp hnext, .cons hp' hnext'⟩

/-- If every projection takes all events, so does their dispatcher, and it counts them. -/
theorem projectAll_of_takes {events : List Event} {projections projections' : List (Projection σ)}
    (h : List.Forall₂ (Projection.Takes events) projections projections') :
    (⟨projections⟩ : Dispatcher σ).projectAll events = (⟨projections'⟩, .ok events.length) := by
  induction events generalizing projections with
  | nil =>
    rw [takes_nil h]
    rfl
  | cons e events ih =>
    obtain ⟨next, hfirst, hrest⟩ := exists_between h
    rw [projectAll, project, feed_of_takes hfirst]
    simp only [ih hrest]
    rfl

end Dispatcher

end WorldClock
