import Mathlib.Data.Finset.Card
import Mathlib.Order.Interval.Finset.Nat
import WorldClock.Proofs.BoundedReads
import WorldClock.Proofs.Dispatch
import WorldClock.Ticker.Surroundings

/-!
# Projections that refuse events

A call of a dispatcher ends at the first projection that refuses its event: the projections before
it have taken the event, those after it never see it. So what a projection has folded after many
calls hangs on the states that all projections before it went through. It is the events that those
before it and it itself accepted, each in the state of the moment (`Dispatcher.acceptedByFirst`),
and so it is what the projection accepts, on its own, of the events that those before it accepted
(`Dispatcher.acceptedByFirst_succ`). A rebuild is such a row of calls that ends with the first one
that fails.
-/

namespace WorldClock

variable {σ : Type}

namespace Projection

/-- Whether a projection accepts an event in the state that it is in. -/
def accepts (p : Projection σ) (e : Event) : Bool := (p.handle p.state e).isOk

/-- A projection after it has seen an event. -/
def offer (p : Projection σ) (e : Event) : Projection σ :=
  match p.handle p.state e with
  | .ok state => { p with state := state }
  | .error _ => p

/-- Those of some events that a projection accepts when it sees one after another. -/
def accepted (p : Projection σ) : List Event → List Event
  | [] => []
  | e :: es =>
    if p.accepts e then e :: (p.offer e).accepted es else (p.offer e).accepted es

theorem accepts_cases (p : Projection σ) (e : Event) :
    (∃ state, p.handle p.state e = .ok state ∧ p.accepts e = true ∧
        p.offer e = { p with state := state }) ∨
      ∃ refusal, p.handle p.state e = .error refusal ∧ p.accepts e = false ∧ p.offer e = p := by
  rw [accepts, offer]
  cases p.handle p.state e with
  | ok state => exact .inl ⟨state, rfl, rfl, rfl⟩
  | error refusal => exact .inr ⟨refusal, rfl, rfl, rfl⟩

theorem Takes.cons {p p' : Projection σ} {e : Event} {es : List Event} (he : p.accepts e = true)
    (h : (p.offer e).Takes es p') : p.Takes (e :: es) p' := by
  obtain ⟨state, hhandle, -, hoffer⟩ | ⟨-, -, hrefused, -⟩ := p.accepts_cases e
  · rw [hoffer] at h
    obtain ⟨last, hfold, rfl⟩ := h
    exact ⟨last, foldlM_cons_eq_ok.mpr ⟨state, hhandle, hfold⟩, rfl⟩
  · exact absurd he (by rw [hrefused]; exact Bool.false_ne_true)

end Projection

namespace Dispatcher

/-- A dispatcher after it was called with some events, one after another, however the calls end. -/
def projectEach (d : Dispatcher σ) (es : List Event) : Dispatcher σ :=
  es.foldl (fun d e => (d.project e).1) d

/-- Those of the events of some calls that the first `n` projections accept, each of them in the
state in which it is at the call. -/
def acceptedByFirst (n : Nat) (d : Dispatcher σ) : List Event → List Event
  | [] => []
  | e :: es =>
    if (d.projections.take n).all (·.accepts e) then e :: (d.project e).1.acceptedByFirst n es
    else (d.project e).1.acceptedByFirst n es

/-- Every one of some calls succeeds. -/
def SucceedsOn (d : Dispatcher σ) : List Event → Prop
  | [] => True
  | e :: es => (d.project e).2 = none ∧ (d.project e).1.SucceedsOn es

/-! ### One call -/

theorem feed_cons_of_accepts {p : Projection σ} {e : Event} (h : p.accepts e = true)
    (rest : List (Projection σ)) :
    feed e (p :: rest) = (p.offer e :: (feed e rest).1, (feed e rest).2) := by
  obtain ⟨state, hhandle, -, hoffer⟩ | ⟨-, -, hrefused, -⟩ := p.accepts_cases e
  · rw [feed, hhandle, hoffer]
  · rw [hrefused] at h
    cases h

theorem feed_cons_of_refuses {p : Projection σ} {e : Event} {refusal : Refusal}
    (h : p.handle p.state e = .error refusal) (rest : List (Projection σ)) :
    feed e (p :: rest) = (p :: rest, some ⟨p.name, e.tag, e.version, refusal⟩) := by
  rw [feed, h]

/-- A projection sees the event of a call exactly if all before it accept the event. -/
theorem getElem?_feed (e : Event) (projections : List (Projection σ)) (j : Nat) :
    (feed e projections).1[j]? = projections[j]?.map fun p =>
      if (projections.take j).all (·.accepts e) then p.offer e else p := by
  induction projections generalizing j with
  | nil => rfl
  | cons p rest ih =>
    obtain ⟨-, -, haccepts, -⟩ | ⟨refusal, hhandle, hrefuses, hoffer⟩ := p.accepts_cases e
    · rw [feed_cons_of_accepts haccepts]
      cases j with
      | zero => rfl
      | succ j =>
        simp only [List.getElem?_cons_succ, ih, List.take_succ_cons, List.all_cons, haccepts,
          Bool.true_and]
    · rw [feed_cons_of_refuses hhandle]
      cases j with
      | zero =>
        simp only [List.getElem?_cons_zero, Option.map_some, hoffer, ite_self]
      | succ j =>
        simp only [List.take_succ_cons, List.all_cons, hrefuses, Bool.false_and,
          Bool.false_eq_true, if_false, Option.map_id']

theorem getElem?_project (d : Dispatcher σ) (e : Event) (j : Nat) :
    (d.project e).1.projections[j]? = d.projections[j]?.map fun p =>
      if (d.projections.take j).all (·.accepts e) then p.offer e else p :=
  getElem?_feed e d.projections j

theorem feed_eq_some_iff {e : Event} {projections : List (Projection σ)} {error : DispatchError} :
    (feed e projections).2 = some error ↔ ∃ before p after refusal,
      projections = before ++ p :: after ∧ (∀ q ∈ before, q.accepts e = true) ∧
        p.handle p.state e = .error refusal ∧ error = ⟨p.name, e.tag, e.version, refusal⟩ := by
  induction projections with
  | nil => exact ⟨by rintro ⟨⟩, by rintro ⟨before, p, after, refusal, h, -⟩; simp at h⟩
  | cons p rest ih =>
    obtain ⟨state, hhandle, haccepts, -⟩ | ⟨refusal, hhandle, hrefuses, -⟩ := p.accepts_cases e
    · rw [feed_cons_of_accepts haccepts, ih]
      constructor
      · rintro ⟨before, q, after, refusal, rfl, hbefore, hq⟩
        exact ⟨p :: before, q, after, refusal, rfl,
          List.forall_mem_cons.mpr ⟨haccepts, hbefore⟩, hq⟩
      · rintro ⟨before, q, after, refusal, hsplit, hbefore, hrefused, herror⟩
        cases before with
        | nil =>
          obtain ⟨rfl, rfl⟩ := List.cons.inj hsplit
          cases hhandle.symm.trans hrefused
        | cons first before =>
          obtain ⟨rfl, rfl⟩ := List.cons.inj hsplit
          exact ⟨before, q, after, refusal, rfl, (List.forall_mem_cons.mp hbefore).2, hrefused,
            herror⟩
    · rw [feed_cons_of_refuses hhandle]
      constructor
      · rintro ⟨⟩
        exact ⟨[], p, rest, refusal, rfl, by rintro q ⟨⟩, hhandle, rfl⟩
      · rintro ⟨before, q, after, refusal', hsplit, hbefore, hrefused, herror⟩
        cases before with
        | nil =>
          obtain ⟨rfl, rfl⟩ := List.cons.inj hsplit
          cases hhandle.symm.trans hrefused
          rw [herror]
        | cons first before =>
          obtain ⟨rfl, rfl⟩ := List.cons.inj hsplit
          rw [(List.forall_mem_cons.mp hbefore).1] at hrefuses
          cases hrefuses

theorem feed_eq_none_iff {e : Event} {projections : List (Projection σ)} :
    (feed e projections).2 = none ↔ ∀ p ∈ projections, p.accepts e = true := by
  induction projections with
  | nil => exact ⟨by rintro - p ⟨⟩, fun _ => rfl⟩
  | cons p rest ih =>
    rw [List.forall_mem_cons, ← ih]
    obtain ⟨-, -, haccepts, -⟩ | ⟨refusal, hhandle, hrefuses, -⟩ := p.accepts_cases e
    · rw [feed_cons_of_accepts haccepts]
      exact ⟨fun h => ⟨haccepts, h⟩, fun h => h.2⟩
    · rw [feed_cons_of_refuses hhandle, hrefuses]
      exact ⟨by rintro ⟨⟩, fun h => absurd h.1 Bool.false_ne_true⟩

/-! ### Many calls -/

theorem all_take_succ {d : Dispatcher σ} {n : Nat} {p : Projection σ}
    (hp : d.projections[n]? = some p) (e : Event) :
    (d.projections.take (n + 1)).all (·.accepts e) =
      ((d.projections.take n).all (·.accepts e) && p.accepts e) := by
  rw [List.take_add_one, hp, List.all_append]
  simp

@[simp]
theorem acceptedByFirst_zero (d : Dispatcher σ) (es : List Event) :
    d.acceptedByFirst 0 es = es := by
  induction es generalizing d with
  | nil => rfl
  | cons e es ih => rw [acceptedByFirst, List.take_zero, List.all_nil, if_pos rfl, ih]

/-- Of the events that the projections before it accept, a projection takes those that it would
accept on its own. -/
theorem acceptedByFirst_succ {n : Nat} {d : Dispatcher σ} {p : Projection σ}
    (hp : d.projections[n]? = some p) (es : List Event) :
    d.acceptedByFirst (n + 1) es = p.accepted (d.acceptedByFirst n es) := by
  induction es generalizing d p with
  | nil => rfl
  | cons e es ih =>
    have hnext := d.getElem?_project e n
    rw [hp, Option.map_some] at hnext
    have hrest := ih hnext
    rw [acceptedByFirst, acceptedByFirst, all_take_succ hp, hrest]
    by_cases hbefore : (d.projections.take n).all (·.accepts e) = true
    · simp only [hbefore, Bool.true_and, if_true, Projection.accepted]
    · simp only [hbefore, Bool.false_and, if_false, Bool.false_eq_true]

theorem takes_acceptedByFirst {n : Nat} {d : Dispatcher σ} {p : Projection σ}
    (hp : d.projections[n]? = some p) (es : List Event) :
    ∃ p', p.Takes (d.acceptedByFirst (n + 1) es) p' ∧
      (d.projectEach es).projections[n]? = some p' := by
  induction es generalizing d p with
  | nil => exact ⟨p, ⟨p.state, rfl, rfl⟩, hp⟩
  | cons e es ih =>
    have hnext := d.getElem?_project e n
    rw [hp, Option.map_some] at hnext
    obtain ⟨p', htakes, hlast⟩ := ih hnext
    refine ⟨p', ?_, hlast⟩
    rw [acceptedByFirst, all_take_succ hp]
    by_cases hbefore : (d.projections.take n).all (·.accepts e) = true
    · rw [if_pos hbefore] at htakes
      rw [hbefore, Bool.true_and]
      obtain ⟨-, -, haccepts, -⟩ | ⟨-, -, hrefuses, hsame⟩ := p.accepts_cases e
      · rw [if_pos haccepts]
        exact htakes.cons haccepts
      · rw [hsame] at htakes
        rw [hrefuses, if_neg Bool.false_ne_true]
        exact htakes
    · rw [if_neg hbefore] at htakes
      rw [eq_false_of_ne_true hbefore, Bool.false_and, if_neg Bool.false_ne_true]
      exact htakes

/-- Events are handed on up to the first call that fails, or all of them. -/
theorem projectAll_cases (d : Dispatcher σ) (es : List Event) :
    d.SucceedsOn es ∧ d.projectAll es = (d.projectEach es, .ok es.length) ∨
      ∃ before e after error, es = before ++ e :: after ∧ d.SucceedsOn before ∧
        ((d.projectEach before).project e).2 = some error ∧
        d.projectAll es = (d.projectEach (before ++ [e]), .error error) := by
  induction es generalizing d with
  | nil => exact .inl ⟨trivial, rfl⟩
  | cons e es ih =>
    cases hcall : (d.project e).2 with
    | some error =>
      refine .inr ⟨[], e, es, error, rfl, trivial, hcall, ?_⟩
      rw [projectAll, ← Prod.eta (d.project e), hcall]
      rfl
    | none =>
      have hrest : d.projectAll (e :: es) = (((d.project e).1.projectAll es).1,
          ((d.project e).1.projectAll es).2.map (· + 1)) := by
        rw [projectAll, ← Prod.eta (d.project e), hcall]
      rw [hrest]
      obtain ⟨hsucceeds, hall⟩ | ⟨before, e', after, error, rfl, hsucceeds, hfails, hall⟩ :=
        ih (d.project e).1
      · exact .inl ⟨⟨hcall, hsucceeds⟩, by rw [hall]; rfl⟩
      · exact .inr ⟨e :: before, e', after, error, rfl, ⟨hcall, hsucceeds⟩, hfails, by
          rw [hall]; rfl⟩

end Dispatcher

/-! ### Rebuilds -/

theorem IsHistory.length_le {events history : List Event} {aggregateId : String}
    (h : IsHistory events aggregateId history) (hversions : ∀ e ∈ events, 1 ≤ e.version) :
    history.length ≤ Count.greatest := by
  have hnodup : (history.map fun e => e.version.toNat).Nodup := by
    rw [List.Nodup, List.pairwise_map]
    exact h.ascends.imp fun hlt => Nat.ne_of_lt (UInt64.lt_iff_toNat_lt.mp hlt)
  have hsubset : (history.map fun e => e.version.toNat).toFinset ⊆
      Finset.Icc 1 Count.greatest := by
    intro n hn
    obtain ⟨e, he, rfl⟩ := List.mem_map.mp (List.mem_toFinset.mp hn)
    have hevent := (List.mem_filter.mp (h.perm.mem_iff.mp he)).1
    exact Finset.mem_Icc.mpr
      ⟨UInt64.le_iff_toNat_le.mp (hversions e hevent), e.version.toNat_le_greatest⟩
  have hcard := Finset.card_le_card hsubset
  rwa [List.toFinset_card_of_nodup hnodup, List.length_map, Nat.card_Icc, Nat.add_sub_cancel]
    at hcard

/-- Rebuilding counts no further than a count can. -/
theorem IndexedLog.length_byAggregate_le (sent : List Event) (aggregateId : String) :
    ((empty.appendAll sent).byAggregate aggregateId 1).length ≤ Count.greatest := by
  have h : (empty.appendAll sent).IsIndexed := isIndexed_empty.appendAll sent
  have harrivals : (empty.appendAll sent).arrivals.toList = empty.taken sent :=
    arrivals_appendAll empty sent
  refine (isHistory_byAggregate sent aggregateId).length_le fun e he => ?_
  exact h.one_le_version (Array.mem_toList_iff.mp (harrivals ▸ he))

theorem IndexedLog.IsIndexed.rebuild_toLog {log : IndexedLog} (h : log.IsIndexed)
    (d : Dispatcher σ) (aggregateId : String) :
    log.rebuild d aggregateId = d.rebuild log.toLog aggregateId := by
  rw [IndexedLog.rebuild, Dispatcher.rebuild, h.byAggregate_toLog]

/-- What projections do when events are handed to them, which each of them may refuse or accept as
it likes.

After any calls a projection has folded, in their order, just the events that all projections before
it and it itself accepted; those are the events that it accepts, on its own, of what the ones before
it accepted. A call fails if and only if some projection refuses its event when its turn comes, and
then the error names the first one that does so, with the tag and the version of the event. A
rebuild makes the calls for the history of an aggregate in the order of the versions: either all of
them, which succeed and are counted, or those up to the first one that fails, with its error. -/
theorem Dispatcher.applies_accepted (d : Dispatcher σ) (calls : List Event) :
    (d.acceptedByFirst 0 calls = calls ∧ ∀ n p, d.projections[n]? = some p →
      d.acceptedByFirst (n + 1) calls = p.accepted (d.acceptedByFirst n calls) ∧
      ∃ p', p.Takes (d.acceptedByFirst (n + 1) calls) p' ∧
        (d.projectEach calls).projections[n]? = some p') ∧
    (∀ e, let now := d.projectEach calls
      ((now.project e).2 = none ↔ ∀ p ∈ now.projections, p.accepts e = true) ∧
      ∀ error, (now.project e).2 = some error ↔ ∃ before p after refusal,
        now.projections = before ++ p :: after ∧ (∀ q ∈ before, q.accepts e = true) ∧
          p.handle p.state e = .error refusal ∧ error = ⟨p.name, e.tag, e.version, refusal⟩) ∧
    ∀ sent aggregateId, let log := IndexedLog.empty.appendAll sent
      let history := log.byAggregate aggregateId 1
      IsHistory (IndexedLog.empty.taken sent) aggregateId history ∧
      history.length ≤ Count.greatest ∧
      (d.SucceedsOn history ∧
          log.rebuild d aggregateId = (d.projectEach history, .ok history.length) ∨
        ∃ before e after error, history = before ++ e :: after ∧ d.SucceedsOn before ∧
          ((d.projectEach before).project e).2 = some error ∧
          log.rebuild d aggregateId = (d.projectEach (before ++ [e]), .error error)) := by
  refine ⟨⟨d.acceptedByFirst_zero calls, fun n p hp => ?_⟩, fun e => ?_, fun sent aggregateId => ?_⟩
  · exact ⟨acceptedByFirst_succ hp calls, takes_acceptedByFirst hp calls⟩
  · exact ⟨feed_eq_none_iff, fun _ => feed_eq_some_iff⟩
  · exact ⟨IndexedLog.isHistory_byAggregate sent aggregateId,
      IndexedLog.length_byAggregate_le sent aggregateId, projectAll_cases d _⟩

/-- The second of three projections refuses the second of three events. The third projection takes
the other two, and the call with the second event names the second projection. -/
theorem Dispatcher.applies_accepted_of_refusedOnce :
    let d : Dispatcher ReadModel :=
      ⟨[ReadModel.recorder "a" [], ReadModel.recorder "b" [2], ReadModel.recorder "c" []]⟩
    let event (version : Count) := Event.ofWorld default version .earliest (.resumed ⟨0, 0⟩)
    (∃ p', (ReadModel.recorder "c" []).Takes [event 1, event 3] p' ∧
      (d.projectEach [event 1, event 2, event 3]).projections[2]? = some p') ∧
    ((d.projectEach [event 1]).project (event 2)).2 =
      some ⟨"b", "world.resumed", 2, .unwanted "b refused"⟩ := by
  intro d event
  obtain ⟨-, htakes⟩ := (d.applies_accepted [event 1, event 2, event 3]).1.2 2 _ rfl
  have haccepted : d.acceptedByFirst 3 [event 1, event 2, event 3] = [event 1, event 3] := by
    decide +kernel
  rw [haccepted] at htakes
  refine ⟨htakes, (((d.applies_accepted [event 1]).2.1 (event 2)).2 _).mpr ?_⟩
  exact ⟨[{ ReadModel.recorder "a" [] with state := .seen [("world.resumed", 1)] }],
    { ReadModel.recorder "b" [2] with state := .seen [("world.resumed", 1)] },
    [{ ReadModel.recorder "c" [] with state := .seen [("world.resumed", 1)] }],
    .unwanted "b refused", rfl, by decide +kernel, rfl, by decide +kernel⟩

end WorldClock
