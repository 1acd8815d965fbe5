import WorldClock.Proofs.Timelines

/-!
# Folding any history

A history may hold events of other kinds, which timelines pass over, and completed catch-ups whose
details nobody can read, which count all the same. `Timeline.Leads` says what one event makes of the
timeline of its world, and it is all that the table of timelines does with an event
(`Timelines.leads_of_handle`, `Timelines.handle_of_leads`). A history that is taken at all comes to
a plain fold over its events, from the timeline with which its first creation starts
(`Timeline.LeadsThrough.of_none`).
-/

namespace WorldClock

/-! ### One event -/

/-- What timelines take from an event of a known kind. What a completed catch-up tells is not looked
at. -/
def Event.told? (e : Event) : Option Details :=
  match e.kind? with
  | none => none
  | some .resumed => some (.resumed ⟨0, 0⟩)
  | some k => e.details? k

/-- An event that timelines pass over or can read. -/
def Event.IsTakeable (e : Event) : Prop := e.kind? = none ∨ e.told? ≠ none

theorem Details.kind_of_ofBytes? {k : EventKind} {bytes : Bytes} {d : Details}
    (h : ofBytes? k bytes = some d) : d.kind = k := by
  obtain ⟨j, -, hj⟩ := Option.bind_eq_some_iff.mp h
  cases k with
  | created | ticked | paused | resumed =>
    obtain ⟨record, -, rfl⟩ := Option.map_eq_some_iff.mp hj
    rfl

theorem Event.kind?_of_told? {e : Event} {d : Details} (h : e.told? = some d) :
    e.kind? = some d.kind := by
  rw [told?] at h
  split at h
  · cases h
  · next hkind =>
    cases h
    exact hkind
  · next k _ hkind =>
    rw [hkind, Details.kind_of_ofBytes? h]

namespace Timeline

/-- A timeline after an event that can be taken. -/
def take (t : Timeline) (e : Event) : Timeline :=
  match e.told? with
  | none => t
  | some d => t.after e d

/-- A creation that is taken a second time changes nothing. -/
theorem after_starting (world : WorldId) (e : Event) (d : CreatedDetails) :
    (starting world e d).after e (.created d) = starting world e d := rfl

/-- What an event makes of the timeline of its world, if there is one. -/
inductive Leads (world : WorldId) (e : Event) : Option Timeline → Option Timeline → Prop where
  | passed {known : Option Timeline} (hkind : e.kind? = none) : Leads world e known known
  | founded {d : CreatedDetails} (htold : e.told? = some (.created d)) :
    Leads world e none (some (starting world e d))
  | next {t : Timeline} {d : Details} (htold : e.told? = some d) :
    Leads world e (some t) (some (t.after e d))

end Timeline

namespace Timelines

variable {e : Event} {world : WorldId} {ts : Timelines}

theorem told?_of_read {k : EventKind} {d : Details} (hkind : e.kind? = some k)
    (hresumed : k ≠ .resumed) (hread : read e k = .ok d) : e.told? = some d := by
  rw [read] at hread
  split at hread
  · next d' hdetails =>
    cases hread
    rw [Event.told?, hkind]
    cases k with
    | resumed => exact absurd rfl hresumed
    | created | ticked | paused => exact hdetails
  · cases hread

theorem read_of_told? {d : Details} (htold : e.told? = some d) (hresumed : d.kind ≠ .resumed) :
    read e d.kind = .ok d := by
  have hkind := Event.kind?_of_told? htold
  rw [Event.told?, hkind] at htold
  cases d with
  | resumed d => exact absurd rfl hresumed
  | created d | ticked d | paused d =>
    rw [read]
    simp only [Details.kind] at htold ⊢
    rw [htold]

/-- An event that is taken leads on the timeline of its world, and no other. -/
theorem handle_cases {ts' : Timelines} (hworld : WorldId.ofText? e.aggregateId = some world)
    (h : ts.handle e = .ok ts') : e.kind? = none ∧ ts' = ts ∨
      ∃ t, Timeline.Leads world e (ts.get? world) (some t) ∧ ts' = ts.set world t := by
  rw [handle] at h
  cases hkind : e.kind? with
  | none =>
    rw [hkind] at h
    cases h
    exact .inl ⟨rfl, rfl⟩
  | some k =>
    refine .inr ?_
    simp only [hkind, hworld, handleWorld] at h
    cases hget : ts.get? world with
    | none =>
      simp only [hget] at h
      by_cases hcreated : k = .created
      · subst hcreated
        simp only [ne_eq, not_true_eq_false, if_false] at h
        cases hread : read e .created with
        | error refusal =>
          rw [hread] at h
          cases h
        | ok d =>
          have htold := told?_of_read hkind (by rintro ⟨⟩) hread
          have hsame : d.kind = .created :=
            Option.some.inj ((Event.kind?_of_told? htold).symm.trans hkind)
          rw [hread] at h
          cases d with
          | created d =>
            cases h
            exact ⟨_, .founded htold, rfl⟩
          | ticked d | paused d | resumed d => cases hsame
      · simp only [hcreated, ne_eq, not_false_eq_true, if_true] at h
        cases h
    | some t =>
      simp only [hget] at h
      by_cases hresumed : k = .resumed
      · have htold : e.told? = some (.resumed ⟨0, 0⟩) := by rw [Event.told?, hkind, hresumed]
        simp only [hresumed, if_true] at h
        cases h
        exact ⟨_, .next htold, rfl⟩
      · simp only [hresumed, if_false] at h
        cases hread : read e k with
        | error refusal =>
          rw [hread] at h
          cases h
        | ok d =>
          rw [hread] at h
          cases h
          exact ⟨_, .next (told?_of_read hkind hresumed hread), rfl⟩

theorem leads_of_handle {ts' : Timelines} (hworld : WorldId.ofText? e.aggregateId = some world)
    (h : ts.handle e = .ok ts') : Timeline.Leads world e (ts.get? world) (ts'.get? world) := by
  obtain ⟨hkind, rfl⟩ | ⟨t, hleads, rfl⟩ := handle_cases hworld h
  · exact .passed hkind
  · rwa [WorldTable.get?_set_self]

theorem get?_of_handle {ts' : Timelines} {other : WorldId}
    (hworld : WorldId.ofText? e.aggregateId = some world) (hne : other ≠ world)
    (h : ts.handle e = .ok ts') : ts'.get? other = ts.get? other := by
  obtain ⟨-, rfl⟩ | ⟨t, -, rfl⟩ := handle_cases hworld h
  · rfl
  · rw [WorldTable.get?_set, if_neg hne]

theorem handle_of_leads {known : Option Timeline}
    (hworld : WorldId.ofText? e.aggregateId = some world)
    (h : Timeline.Leads world e (ts.get? world) known) :
    ∃ ts', ts.handle e = .ok ts' ∧ ts'.get? world = known := by
  generalize hget : ts.get? world = before at h
  cases h with
  | passed hkind => exact ⟨ts, by rw [handle, hkind], hget⟩
  | @founded d htold =>
    have hkind := Event.kind?_of_told? htold
    have hread := read_of_told? htold (by rintro ⟨⟩)
    refine ⟨ts.set world (Timeline.starting world e d), ?_, WorldTable.get?_set_self _ _ _⟩
    simp only [Details.kind] at hkind hread
    simp only [handle, hkind, hworld, handleWorld, hget, hread]
    rfl
  | @next t d htold =>
    have hkind := Event.kind?_of_told? htold
    refine ⟨ts.set world (t.after e d), ?_, WorldTable.get?_set_self _ _ _⟩
    simp only [handle, hkind, hworld, handleWorld, hget]
    by_cases hresumed : d.kind = .resumed
    · cases d with
      | resumed d => rfl
      | created d | ticked d | paused d => cases hresumed
    · rw [if_neg hresumed, read_of_told? htold hresumed]
      rfl

end Timelines

/-! ### A history -/

namespace Timeline

/-- What the events of a history make of the timeline of their world. -/
inductive LeadsThrough (world : WorldId) :
    List Event → Option Timeline → Option Timeline → Prop where
  | nil {known : Option Timeline} : LeadsThrough world [] known known
  | cons {e : Event} {events : List Event} {before next known : Option Timeline}
    (hfirst : Leads world e before next) (hrest : LeadsThrough world events next known) :
    LeadsThrough world (e :: events) before known

variable {world : WorldId} {events : List Event}

theorem take_of_passed {e : Event} (hkind : e.kind? = none) (t : Timeline) : t.take e = t := by
  rw [take, Event.told?, hkind]

theorem take_of_told {e : Event} {d : Details} (htold : e.told? = some d) (t : Timeline) :
    t.take e = t.after e d := by
  rw [take, htold]

theorem leads_of_isTakeable {e : Event} (h : e.IsTakeable) (t : Timeline) :
    Leads world e (some t) (some (t.take e)) := by
  cases htold : e.told? with
  | none =>
    have hkind := h.resolve_right (by simp [htold])
    rw [take_of_passed hkind]
    exact .passed hkind
  | some d =>
    rw [take_of_told htold]
    exact .next htold

theorem leadsThrough_some (h : ∀ e ∈ events, e.IsTakeable) (t : Timeline) :
    LeadsThrough world events (some t) (some (events.foldl take t)) := by
  induction events generalizing t with
  | nil => exact .nil
  | cons e events ih =>
    exact .cons (leads_of_isTakeable (h e List.mem_cons_self) t)
      (ih (fun e' he' => h e' (List.mem_cons_of_mem _ he')) (t.take e))

/-- A history that goes on from a timeline can be taken event by event. -/
theorem LeadsThrough.of_some {t : Timeline} {known : Option Timeline}
    (h : LeadsThrough world events (some t) known) :
    (∀ e ∈ events, e.IsTakeable) ∧ known = some (events.foldl take t) := by
  induction events generalizing t with
  | nil =>
    cases h
    exact ⟨by simp, rfl⟩
  | cons e events ih =>
    cases h with
    | cons hfirst hrest =>
      cases hfirst with
      | passed hkind =>
        obtain ⟨htakeable, hknown⟩ := ih hrest
        rw [List.foldl_cons, take_of_passed hkind]
        exact ⟨List.forall_mem_cons.mpr ⟨.inl hkind, htakeable⟩, hknown⟩
      | next htold =>
        obtain ⟨htakeable, hknown⟩ := ih hrest
        rw [List.foldl_cons, take_of_told htold]
        exact ⟨List.forall_mem_cons.mpr ⟨.inr (by simp [htold]), htakeable⟩, hknown⟩

/-- A history that founds a timeline can be taken event by event from the timeline with which its
first creation starts: to take that creation again changes nothing. -/
theorem LeadsThrough.of_none {t : Timeline} (h : LeadsThrough world events none (some t)) :
    (∀ e ∈ events, e.IsTakeable) ∧ ∃ first, t = events.foldl take first := by
  induction events with
  | nil => cases h
  | cons e events ih =>
    cases h with
    | cons hfirst hrest =>
      cases hfirst with
      | passed hkind =>
        obtain ⟨htakeable, first, ht⟩ := ih hrest
        refine ⟨List.forall_mem_cons.mpr ⟨.inl hkind, htakeable⟩, first, ?_⟩
        rw [List.foldl_cons, take_of_passed hkind, ht]
      | @founded d htold =>
        obtain ⟨htakeable, ht⟩ := hrest.of_some
        refine ⟨List.forall_mem_cons.mpr ⟨.inr (by simp [htold]), htakeable⟩,
          starting world e d, ?_⟩
        rw [List.foldl_cons, take_of_told htold, after_starting]
        exact Option.some.inj ht

theorem leadsThrough_append {more : List Event} {before known : Option Timeline} :
    LeadsThrough world (events ++ more) before known ↔
      ∃ next, LeadsThrough world events before next ∧ LeadsThrough world more next known := by
  induction events generalizing before with
  | nil =>
    refine ⟨fun h => ⟨before, .nil, h⟩, ?_⟩
    rintro ⟨next, hnil, hmore⟩
    cases hnil
    exact hmore
  | cons e events ih =>
    constructor
    · intro h
      cases h with
      | cons hfirst hrest =>
        obtain ⟨next, hevents, hmore⟩ := ih.mp hrest
        exact ⟨next, .cons hfirst hevents, hmore⟩
    · rintro ⟨next, hevents, hmore⟩
      cases hevents with
      | cons hfirst hrest => exact .cons hfirst (ih.mpr ⟨next, hrest, hmore⟩)

theorem Leads.unique {e : Event} {before known known' : Option Timeline}
    (h : Leads world e before known) (h' : Leads world e before known') : known = known' := by
  have hexcluded {d : Details} (hkind : e.kind? = none) (htold : e.told? = some d) : False := by
    rw [Event.kind?_of_told? htold] at hkind
    cases hkind
  cases h with
  | passed hkind =>
    cases h' with
    | passed => rfl
    | founded htold | next htold => exact (hexcluded hkind htold).elim
  | founded htold =>
    cases h' with
    | passed hkind => exact (hexcluded hkind htold).elim
    | founded htold' =>
      cases htold.symm.trans htold'
      rfl
  | next htold =>
    cases h' with
    | passed hkind => exact (hexcluded hkind htold).elim
    | next htold' =>
      cases htold.symm.trans htold'
      rfl

theorem LeadsThrough.unique {before known known' : Option Timeline}
    (h : LeadsThrough world events before known) (h' : LeadsThrough world events before known') :
    known = known' := by
  induction h with
  | nil =>
    cases h'
    rfl
  | cons hfirst hrest ih =>
    cases h' with
    | cons hfirst' hrest' => exact ih (hfirst.unique hfirst' ▸ hrest')

end Timeline

namespace Timelines

variable {world : WorldId} {events : List Event} {ts : Timelines}

theorem leadsThrough_of_foldlM {ts' : Timelines}
    (hworld : ∀ e ∈ events, WorldId.ofText? e.aggregateId = some world)
    (h : events.foldlM handle ts = .ok ts') :
    Timeline.LeadsThrough world events (ts.get? world) (ts'.get? world) := by
  induction events generalizing ts with
  | nil =>
    cases h
    exact .nil
  | cons e events ih =>
    obtain ⟨hfirst, hrest⟩ := List.forall_mem_cons.mp hworld
    obtain ⟨next, hhandle, hfold⟩ := foldlM_cons_eq_ok.mp h
    exact .cons (leads_of_handle hfirst hhandle) (ih hrest hfold)

theorem get?_of_foldlM {ts' : Timelines} {other : WorldId}
    (hworld : ∀ e ∈ events, WorldId.ofText? e.aggregateId = some world) (hne : other ≠ world)
    (h : events.foldlM handle ts = .ok ts') : ts'.get? other = ts.get? other := by
  induction events generalizing ts with
  | nil =>
    cases h
    rfl
  | cons e events ih =>
    obtain ⟨hfirst, hrest⟩ := List.forall_mem_cons.mp hworld
    obtain ⟨next, hhandle, hfold⟩ := foldlM_cons_eq_ok.mp h
    rw [ih hrest hfold, get?_of_handle hfirst hne hhandle]

theorem foldlM_of_leadsThrough {known : Option Timeline}
    (hworld : ∀ e ∈ events, WorldId.ofText? e.aggregateId = some world)
    (h : Timeline.LeadsThrough world events (ts.get? world) known) :
    ∃ ts', events.foldlM handle ts = .ok ts' ∧ ts'.get? world = known := by
  induction events generalizing ts with
  | nil =>
    generalize hget : ts.get? world = before at h
    cases h
    exact ⟨ts, rfl, hget⟩
  | cons e events ih =>
    obtain ⟨hfirst, hrest⟩ := List.forall_mem_cons.mp hworld
    cases h with
    | cons hleads hthrough =>
      obtain ⟨next, hhandle, rfl⟩ := handle_of_leads hfirst hleads
      obtain ⟨ts', hfold, hget⟩ := ih hrest hthrough
      exact ⟨ts', foldlM_cons_eq_ok.mpr ⟨next, hhandle, hfold⟩, hget⟩

end Timelines

end WorldClock
