import WorldClock.Proofs.Dispatch
import WorldClock.Proofs.Event.Histories
import WorldClock.Proofs.Event.Payloads
import WorldClock.Timeline

/-!
# What a history leaves behind

A `Story` folds the events of one world into its timeline, event by event, the latest event first.
It is what restoring a world comes to (`restore_eq`), without projections, tables and payloads: each
event tells its details, and the timeline goes on from there.
-/

namespace WorldClock

/-- An event of a world that tells some details. -/
structure Event.Tells (e : Event) (world : WorldId) (d : Details) : Prop where
  aggregateId : e.aggregateId = world.text
  kind : e.kind? = some d.kind
  details : e.details? d.kind = some d

/-- An event that was made of details tells them, a dilation left aside. -/
theorem Event.tells_ofWorld (world : WorldId) (version : Count) (now : Instant) {d : Details}
    (h : d.IsReadable) :
    ∃ d', d.Agrees d' ∧ (Event.ofWorld world version now d).Tells world d' := by
  obtain ⟨d', hread, hagrees⟩ := Details.ofBytes?_bytes h
  have hkind : d.kind = d'.kind := by
    cases d <;> cases d' <;> first | rfl | cases hagrees
  refine ⟨d', hagrees, rfl, ?_, ?_⟩
  · rw [Event.kind?_ofWorld, hkind]
  · rw [← hkind]
    exact hread

theorem Event.Tells.unique {e : Event} {world : WorldId} {d d' : Details} (h : e.Tells world d)
    (h' : e.Tells world d') : d = d' := by
  have hkind : d.kind = d'.kind := Option.some.inj (h.kind.symm.trans h'.kind)
  exact Option.some.inj (h.details.symm.trans (hkind ▸ h'.details))

/-- An event that was made of details of any kind but a creation tells them. -/
theorem Event.tells_ofWorld_self (world : WorldId) (version : Count) (now : Instant) {d : Details}
    (h : d.kind ≠ .created) : (Event.ofWorld world version now d).Tells world d := by
  obtain ⟨d', hagrees, htells⟩ :=
    Event.tells_ofWorld world version now (Details.isReadable_of_kind h)
  cases d with
  | created d => exact absurd rfl h
  | ticked d | paused d | resumed d =>
    cases hagrees
    exact htells

/-- The timeline of a world after its events, the latest one first. -/
inductive Story (world : WorldId) : List Event → Timeline → Prop where
  | creation {e : Event} {d : CreatedDetails} (htells : e.Tells world (.created d)) :
    Story world [e] (Timeline.starting world e d)
  | next {e : Event} {events : List Event} {t : Timeline} {d : Details}
    (hstory : Story world events t) (htells : e.Tells world d) :
    Story world (e :: events) (t.after e d)

namespace Timelines

theorem handle_of_tells {ts : Timelines} {world : WorldId} {e : Event} {d : Details}
    (h : e.Tells world d) : ts.handle e = ts.handleWorld e d.kind world := by
  rw [handle, h.kind]
  simp only [h.aggregateId, WorldId.ofText?_text]

theorem read_of_tells {world : WorldId} {e : Event} {d : Details} (h : e.Tells world d) :
    read e d.kind = .ok d := by
  rw [read, h.details]

theorem handle_creation {ts : Timelines} {world : WorldId} {e : Event} {d : CreatedDetails}
    (h : e.Tells world (.created d)) (hnone : ts.get? world = none) :
    ts.handle e = .ok (ts.set world (Timeline.starting world e d)) := by
  have hread : read e .created = .ok (.created d) := read_of_tells h
  rw [handle_of_tells h, handleWorld, hnone]
  simp only [Details.kind, hread]
  rfl

theorem handle_next {ts : Timelines} {world : WorldId} {e : Event} {d : Details} {t : Timeline}
    (h : e.Tells world d) (hsome : ts.get? world = some t) :
    ts.handle e = .ok (ts.set world (t.after e d)) := by
  rw [handle_of_tells h, handleWorld, hsome]
  by_cases hkind : d.kind = .resumed
  · simp only [hkind, if_true]
    cases d with
    | resumed d => rfl
    | created d | ticked d | paused d => cases hkind
  · simp only [hkind, if_false, read_of_tells h]
    rfl

end Timelines

namespace Story

variable {world : WorldId} {events : List Event} {t : Timeline}

theorem ne_nil (h : Story world events t) : events ≠ [] := by
  cases h <;> exact List.cons_ne_nil _ _

theorem of_single {e : Event} (h : Story world [e] t) : ∃ d, t = Timeline.starting world e d := by
  cases h with
  | creation => exact ⟨_, rfl⟩
  | next hstory => exact absurd rfl hstory.ne_nil

theorem world_eq (h : Story world events t) : t.world = world := by
  induction h with
  | creation => rfl
  | @next e events t d hstory htells ih => cases d <;> exact ih

/-- A story starts with a creation, and its timeline keeps the instant of it. -/
theorem exists_first (h : Story world events t) : ∃ first, events.reverse.head? = some first ∧
    first.kind? = some .created ∧ t.createdAt = first.timestamp := by
  induction h with
  | @creation e d htells => exact ⟨e, rfl, htells.kind, rfl⟩
  | @next e events t d hstory htells ih =>
    obtain ⟨first, hhead, hkind, hcreated⟩ := ih
    refine ⟨first, ?_, hkind, ?_⟩
    · rw [List.reverse_cons, List.head?_append, hhead, Option.some_or]
    · cases d <;> exact hcreated

/-- A history has one timeline. -/
theorem unique {t' : Timeline} (h : Story world events t) (h' : Story world events t') :
    t = t' := by
  induction h generalizing t' with
  | @creation e d htells =>
    cases h' with
    | creation htells' =>
      cases htells.unique htells'
      rfl
    | next hstory => exact absurd rfl hstory.ne_nil
  | @next e events t d hstory htells ih =>
    cases h' with
    | creation => exact absurd rfl hstory.ne_nil
    | next hstory' htells' => rw [ih hstory', htells.unique htells']

/-- The timeline of a history that goes on with an event. -/
theorem cons_eq {e : Event} {d : Details} {t' : Timeline} (h : Story world events t)
    (htells : e.Tells world d) (h' : Story world (e :: events) t') : t' = t.after e d :=
  h'.unique (h.next htells)

/-- Handing the events on in their order leaves the timeline of the story. -/
theorem foldlM_handle (h : Story world events t) :
    ∃ ts : Timelines, events.reverse.foldlM Timelines.handle WorldTable.empty = .ok ts ∧
      ts.get? world = some t := by
  induction h with
  | @creation e d htells =>
    refine ⟨_, ?_, WorldTable.get?_set_self WorldTable.empty world _⟩
    simp only [List.reverse_cons, List.reverse_nil, List.nil_append, List.foldlM_cons,
      Timelines.handle_creation htells (WorldTable.get?_empty world)]
    rfl
  | @next e events t d hstory htells ih =>
    obtain ⟨ts, hfold, hget⟩ := ih
    refine ⟨_, ?_, WorldTable.get?_set_self ts world _⟩
    rw [List.reverse_cons, List.foldlM_append, hfold]
    simp only [List.foldlM_cons, List.foldlM_nil, bind, Except.bind,
      Timelines.handle_next htells hget]
    rfl

end Story

/-! ### Restoring -/

/-- A dispatcher with the one projection that keeps timelines. -/
def Dispatcher.ofTimelines (ts : Timelines) : Dispatcher Timelines :=
  ⟨[⟨Timelines.projectionName, ts, Timelines.handle⟩]⟩

theorem Dispatcher.projectAll_ofTimelines {events : List Event} {ts ts' : Timelines}
    (h : events.foldlM Timelines.handle ts = .ok ts') :
    (ofTimelines ts).projectAll events = (ofTimelines ts', .ok events.length) :=
  projectAll_of_takes (.cons ⟨ts', h, rfl⟩ .nil)

/-- Events that are handed on without an error have all been folded. -/
theorem Dispatcher.foldlM_of_projectAll {events : List Event} {ts : Timelines}
    {d : Dispatcher Timelines} {count : Nat}
    (h : (ofTimelines ts).projectAll events = (d, .ok count)) :
    ∃ ts', events.foldlM Timelines.handle ts = .ok ts' := by
  induction events generalizing ts d count with
  | nil => exact ⟨ts, rfl⟩
  | cons e events ih =>
    rw [projectAll] at h
    cases hhandle : ts.handle e with
    | error refusal =>
      have hproject : (ofTimelines ts).project e =
          (ofTimelines ts, some ⟨Timelines.projectionName, e.tag, e.version, refusal⟩) := by
        simp [project, ofTimelines, feed, hhandle]
      rw [hproject] at h
      cases h
    | ok next =>
      have hproject : (ofTimelines ts).project e = (ofTimelines next, none) := by
        simp [project, ofTimelines, feed, hhandle]
      simp only [hproject] at h
      cases hrest : (ofTimelines next).projectAll events with
      | mk d' result =>
        cases result with
        | error refusal =>
          rw [hrest] at h
          cases h
        | ok count' =>
          obtain ⟨ts', hfold⟩ := ih hrest
          exact ⟨ts', foldlM_cons_eq_ok.mpr ⟨next, hhandle, hfold⟩⟩

theorem restore_eq_projectAll (history : List Event) (world : WorldId) :
    restore history world =
      match (Dispatcher.ofTimelines WorldTable.empty).projectAll history with
      | (_, .error e) => .error e
      | (_, .ok 0) => .ok none
      | (d, .ok count) => .ok (((d.projections.head?).bind fun p => p.state.get? world).map
          fun t => (t.toWorld, count)) := by
  have hdispatcher : (Dispatcher.empty.register
      ⟨Timelines.projectionName, WorldTable.empty, Timelines.handle⟩ : Dispatcher Timelines) =
        Dispatcher.ofTimelines WorldTable.empty := rfl
  simp only [restore, hdispatcher]
  rcases (Dispatcher.ofTimelines WorldTable.empty).projectAll history with ⟨d, _ | _ | count⟩ <;>
    rfl

/-- A history that is taken leaves the world of its timeline, if there is one. -/
theorem restore_of_foldlM {history : List Event} {ts : Timelines}
    (h : history.foldlM Timelines.handle WorldTable.empty = .ok ts) (world : WorldId) :
    restore history world = .ok ((ts.get? world).map fun t => (t.toWorld, history.length)) := by
  rw [restore_eq_projectAll, Dispatcher.projectAll_ofTimelines h]
  cases history with
  | nil =>
    cases h
    rfl
  | cons e history => rfl

theorem foldlM_of_restore {history : List Event} {world : WorldId} {found : Option (World × Nat)}
    (h : restore history world = .ok found) :
    ∃ ts, history.foldlM Timelines.handle WorldTable.empty = .ok ts := by
  rw [restore_eq_projectAll] at h
  split at h
  · cases h
  · next hproject => exact Dispatcher.foldlM_of_projectAll hproject
  · next hproject => exact Dispatcher.foldlM_of_projectAll hproject

/-- Restoring a world from its events makes its timeline into a world. -/
theorem restore_eq {world : WorldId} {events : List Event} {t : Timeline}
    (h : Story world events t) :
    restore events.reverse world = .ok (some (t.toWorld, events.length)) := by
  obtain ⟨ts, hfold, hget⟩ := h.foldlM_handle
  rw [restore_of_foldlM hfold, hget, Option.map_some, List.length_reverse]

theorem restore_nil (world : WorldId) : restore [] world = .ok none := rfl

/-! ### What is restored of any history -/

/-- Every timeline stands under the world that it is about. -/
def Timelines.Keyed (ts : Timelines) : Prop := ∀ world t, ts.get? world = some t → t.world = world

namespace Timelines

theorem keyed_empty : Keyed WorldTable.empty := by
  intro world t h
  cases h

theorem Keyed.set {ts : Timelines} (h : ts.Keyed) {world : WorldId} {t : Timeline}
    (ht : t.world = world) : Keyed (WorldTable.set ts world t) := by
  intro other t' hget
  rw [WorldTable.get?_set] at hget
  split at hget
  · next heq =>
    cases hget
    rw [ht, heq]
  · exact h other t' hget

theorem world_after (t : Timeline) (e : Event) (d : Details) : (t.after e d).world = t.world := by
  cases d <;> rfl

theorem Keyed.handleWorld {ts ts' : Timelines} (h : ts.Keyed) {e : Event} {k : EventKind}
    {world : WorldId} (hhandle : ts.handleWorld e k world = .ok ts') : ts'.Keyed := by
  rw [Timelines.handleWorld] at hhandle
  cases hget : ts.get? world with
  | none =>
    simp only [hget] at hhandle
    by_cases hkind : k = .created
    · simp only [hkind, ne_eq, not_true_eq_false, if_false] at hhandle
      cases hread : read e .created with
      | error refusal =>
        rw [hread] at hhandle
        cases hhandle
      | ok d =>
        rw [hread] at hhandle
        cases d with
        | created d =>
          cases hhandle
          exact h.set rfl
        | ticked d | paused d | resumed d =>
          cases hhandle
          exact h
    · simp only [hkind, ne_eq, not_false_eq_true, if_true] at hhandle
      cases hhandle
  | some t =>
    have hworld := h world t hget
    simp only [hget] at hhandle
    by_cases hkind : k = .resumed
    · simp only [hkind, if_true] at hhandle
      cases hhandle
      exact h.set hworld
    · simp only [hkind, if_false] at hhandle
      cases hread : read e k with
      | error refusal =>
        rw [hread] at hhandle
        cases hhandle
      | ok d =>
        rw [hread] at hhandle
        cases hhandle
        exact h.set (by rw [world_after, hworld])

theorem Keyed.handle {ts ts' : Timelines} (h : ts.Keyed) {e : Event}
    (hhandle : ts.handle e = .ok ts') : ts'.Keyed := by
  rw [Timelines.handle] at hhandle
  split at hhandle
  · cases hhandle
    exact h
  · split at hhandle
    · cases hhandle
    · exact h.handleWorld hhandle

theorem Keyed.foldlM {ts ts' : Timelines} (h : ts.Keyed) {events : List Event}
    (hfold : events.foldlM Timelines.handle ts = .ok ts') : ts'.Keyed := by
  induction events generalizing ts with
  | nil =>
    cases hfold
    exact h
  | cons e events ih =>
    obtain ⟨next, hhandle, hrest⟩ := foldlM_cons_eq_ok.mp hfold
    exact ih (h.handle hhandle) hrest

end Timelines

/-- A restored world is the one that was asked for, and it is paused. -/
theorem restore_eq_some {history : List Event} {world : WorldId} {w : World} {count : Nat}
    (h : restore history world = .ok (some (w, count))) :
    ∃ t : Timeline, w = t.toWorld ∧ t.world = world := by
  obtain ⟨ts, hfold⟩ := foldlM_of_restore h
  rw [restore_of_foldlM hfold, Except.ok.injEq, Option.map_eq_some_iff] at h
  obtain ⟨t, hget, heq⟩ := h
  cases heq
  exact ⟨t, rfl, Timelines.keyed_empty.foldlM hfold world t hget⟩

theorem Timeline.markerFits_toWorld (t : Timeline) : t.toWorld.markerFits = true := rfl

end WorldClock
