import WorldClock.Proofs.Rebuilding

/-!
# What a timeline keeps

A timeline is folded event by event, but what it holds in the end can be read off the history: each
of its fields is the first, the last, the greatest or the number of what some of the events tell.
`Timeline.IsSummary` says which for every field. One more event keeps it so (`IsSummary.next`), and
so does every history that is taken, of whatever other events it may be mixed with
(`Timelines.summarised_of_foldlM`).
-/

namespace WorldClock

/-! ### What events tell -/

/-- An event that timelines take in, and what it tells them. -/
abbrev Told := Event × Details

/-- What a history tells of a world, from first to last. -/
def toldOf (world : WorldId) (history : List Event) : List Told :=
  history.filterMap fun e =>
    if WorldId.ofText? e.aggregateId = some world then e.told?.map fun d => (e, d) else none

namespace Details

/-- The number of ticks that a tick or a pause tells. -/
def ticks? : Details → Option Nat
  | .ticked d => some d.tickCount.toNat
  | .paused d => some d.tickCount.toNat
  | .created _ | .resumed _ => none

/-- The game time that a tick or a pause tells, in nanoseconds. -/
def gameNanos? : Details → Option Nat
  | .ticked d => some d.gameTime.nanos
  | .paused d => some d.gameTime.nanos
  | .created _ | .resumed _ => none

/-- The game time of the last weather call that a pause tells, in nanoseconds. -/
def weatherNanos? : Details → Option Nat
  | .paused d => some d.weatherSyncedAt.nanos
  | .created _ | .ticked _ | .resumed _ => none

end Details

namespace Timeline

/-- The greatest of what some of the events tell, zero if none of them tells it. -/
def greatest (told : List Told) (of : Details → Option Nat) : Nat :=
  (told.filterMap fun entry => of entry.2).foldl max 0

/-- The mark of the last event that is no creation, if this is a pause: what the pause recorded, or
else its own instant. -/
def markOf (told : List Told) : Option Instant :=
  match (told.filter fun entry => decide (entry.2.kind ≠ .created)).getLast? with
  | some (e, .paused d) => some (d.pausedAt.getD e.timestamp)
  | _ => none

/-- A timeline, field by field, in terms of what was told of its world. -/
structure IsSummary (world : WorldId) (told : List Told) (t : Timeline) : Prop where
  world : t.world = world
  founded : ∃ e d, told.head? = some (e, .created d) ∧ t.createdAt = e.timestamp
  named : ∃ e d, (told.filter fun entry => decide (entry.2.kind = .created)).getLast? =
    some (e, .created d) ∧ t.name = d.name ∧ t.dilation = d.dilation
  tickCount : t.tickCount.toNat = greatest told Details.ticks?
  gameTime : t.gameTime.nanos = greatest told Details.gameNanos?
  weatherSyncedAt : t.weatherSyncedAt.nanos = greatest told Details.weatherNanos?
  resumes : t.resumes.toNat =
    min (told.countP fun entry => decide (entry.2.kind = .resumed)) Count.greatest
  last : ∃ e d, told.getLast? = some (e, d) ∧ t.lastEventAt = e.timestamp ∧
    t.lastVersion = e.version
  paused : t.paused = (markOf told).isSome
  pausedAt : t.pausedAt = markOf told

/-! ### One event -/

variable {world : WorldId} {told : List Told} {t : Timeline}

theorem greatest_append (told : List Told) (of : Details → Option Nat) (e : Event) (d : Details) :
    greatest (told ++ [(e, d)]) of = max (greatest told of) ((of d).getD 0) := by
  rw [greatest, greatest, List.filterMap_append, List.foldl_append]
  cases h : of d <;> simp [h]

theorem markOf_append (told : List Told) (e : Event) (d : Details) :
    markOf (told ++ [(e, d)]) = (Change.ofDetails e d).mark.getD (markOf told) := by
  cases d <;> simp [markOf, Change.ofDetails, Change.nothing, Details.kind]

theorem IsSummary.next (h : IsSummary world told t) (e : Event) (d : Details) :
    IsSummary world (told ++ [(e, d)]) (t.after e d) := by
  obtain ⟨first, founding, hfirst, hcreatedAt⟩ := h.founded
  obtain ⟨naming, given, hnaming, hname, hdilation⟩ := h.named
  rw [after_eq_change]
  exact {
    world := h.world
    founded := ⟨first, founding, by rw [List.head?_append, hfirst, Option.some_or], hcreatedAt⟩
    named := by
      cases d with
      | created d => exact ⟨e, d, by simp [Details.kind], rfl, rfl⟩
      | ticked d | paused d | resumed d =>
        exact ⟨naming, given, by simpa [Details.kind] using hnaming, hname, hdilation⟩
    tickCount := by
      rw [greatest_append, ← h.tickCount, change, Count.toNat_max]
      cases d <;> rfl
    gameTime := by
      rw [greatest_append, ← h.gameTime, change, Duration.nanos_max]
      cases d <;> rfl
    weatherSyncedAt := by
      rw [greatest_append, ← h.weatherSyncedAt, change, Duration.nanos_max]
      cases d <;> rfl
    resumes := by
      have hone : (Change.ofDetails e d).resumes =
          [(e, d)].countP fun entry => decide (entry.2.kind = .resumed) := by
        cases d <;> rfl
      rw [change, Count.toNat_add, Count.toNat_ofNat, h.resumes, List.countP_append, hone]
      generalize List.countP _ told = before, List.countP _ [(e, d)] = one
      omega
    last := ⟨e, d, by rw [List.getLast?_concat], by cases d <;> exact ⟨rfl, rfl⟩⟩
    paused := by
      rw [markOf_append, change, h.paused]
      cases (Change.ofDetails e d).mark <;> rfl
    pausedAt := by rw [markOf_append, change, h.pausedAt] }

theorem isSummary_starting (world : WorldId) (e : Event) (d : CreatedDetails) :
    IsSummary world [(e, .created d)] (starting world e d) where
  world := rfl
  founded := ⟨e, d, rfl, rfl⟩
  named := ⟨e, d, rfl, rfl, rfl⟩
  tickCount := rfl
  gameTime := rfl
  weatherSyncedAt := rfl
  resumes := rfl
  last := ⟨e, .created d, rfl, rfl, rfl⟩
  paused := rfl
  pausedAt := rfl

/-- What is known of a world after some was told of it: nothing if nothing was told. -/
def Summarises (world : WorldId) (told : List Told) : Option Timeline → Prop
  | none => told = []
  | some t => IsSummary world told t

theorem Leads.summarises {e : Event} {known next : Option Timeline} (h : Leads world e known next)
    (hknown : Summarises world told known) :
    Summarises world (told ++ (e.told?.map fun d => (e, d)).toList) next := by
  cases h with
  | passed hkind =>
    have htold : e.told? = none := by rw [Event.told?, hkind]
    rwa [htold, Option.map_none, Option.toList_none, List.append_nil]
  | founded htold =>
    obtain rfl : told = [] := hknown
    rw [htold]
    exact isSummary_starting world e _
  | next htold =>
    rw [htold]
    exact IsSummary.next hknown e _

end Timeline

/-! ### A history -/

namespace Timelines

open Timeline

variable {world : WorldId} {told : List Told} {ts ts' : Timelines}

theorem toldOf_append (history more : List Event) :
    toldOf world (history ++ more) = toldOf world history ++ toldOf world more :=
  List.filterMap_append

theorem summarises_handle {e : Event} (h : Summarises world told (ts.get? world))
    (hhandle : ts.handle e = .ok ts') :
    Summarises world (told ++ toldOf world [e]) (ts'.get? world) := by
  cases habout : WorldId.ofText? e.aggregateId with
  | none =>
    have hkind : e.kind? = none := by
      cases hkind : e.kind? with
      | none => rfl
      | some k =>
        simp only [handle, hkind, habout] at hhandle
        cases hhandle
    rw [handle, hkind] at hhandle
    cases hhandle
    simpa [toldOf, habout] using h
  | some other =>
    by_cases hsame : other = world
    · subst hsame
      have hleads := (leads_of_handle habout hhandle).summarises h
      cases htold : e.told? <;> simpa [toldOf, habout, htold] using hleads
    · rw [get?_of_handle habout (Ne.symm hsame) hhandle]
      simpa [toldOf, habout, hsame] using h

theorem summarises_foldlM {history : List Event} (h : Summarises world told (ts.get? world))
    (hfold : history.foldlM handle ts = .ok ts') :
    Summarises world (told ++ toldOf world history) (ts'.get? world) := by
  induction history generalizing ts told with
  | nil =>
    cases hfold
    simpa [toldOf] using h
  | cons e history ih =>
    obtain ⟨next, hhandle, hrest⟩ := foldlM_cons_eq_ok.mp hfold
    have hsummary := ih (summarises_handle h hhandle) hrest
    rwa [List.append_assoc, ← toldOf_append] at hsummary

/-- Whatever a history is made of, if it is taken: of a world of which nothing is told there is no
timeline. Of any other the first that is told is a creation, there is a timeline, each of its fields
is what `IsSummary` says, and the world that is taken up from it is paused and carries the mark of
its pause. -/
theorem summarised_of_foldlM {history : List Event}
    (hfold : history.foldlM handle WorldTable.empty = .ok ts) (world : WorldId) :
    toldOf world history = [] ∧ ts.get? world = none ∨
      ∃ t, ts.get? world = some t ∧ IsSummary world (toldOf world history) t ∧
        t.toWorld.status = .paused ∧ t.toWorld.pausedAt.isSome := by
  have hnothing : Summarises world [] ((WorldTable.empty : Timelines).get? world) := rfl
  have hsummary := summarises_foldlM hnothing hfold
  rw [List.nil_append] at hsummary
  cases hget : ts.get? world with
  | none =>
    rw [hget] at hsummary
    exact .inl ⟨hsummary, rfl⟩
  | some t =>
    rw [hget] at hsummary
    exact .inr ⟨t, rfl, hsummary, rfl, rfl⟩

/-- A world that is paused, renamed by someone else, resumed, and paused again with totals of which
some are lower. -/
def pausedTwice (world : WorldId) : List Event :=
  [Event.ofWorld world 1 .earliest (.created ⟨"world", .one, false⟩),
    Event.ofWorld world 2 .earliest (.paused ⟨3, 30, none, 20⟩),
    { Event.ofWorld world 3 .earliest (.ticked ⟨9, 90, 10, false⟩) with tag := "world.renamed" },
    Event.ofWorld world 4 .earliest (.resumed ⟨0, 0⟩),
    Event.ofWorld world 5 .latest (.paused ⟨2, 40, some .epoch, 10⟩)]

theorem summarised_of_pausedTwice :
    ∃ ts t, (pausedTwice ⟨⟨0⟩⟩).foldlM handle WorldTable.empty = .ok ts ∧
      ts.get? ⟨⟨0⟩⟩ = some t ∧ IsSummary ⟨⟨0⟩⟩ (toldOf ⟨⟨0⟩⟩ (pausedTwice ⟨⟨0⟩⟩)) t ∧
      t = ⟨⟨⟨0⟩⟩, "world", .one, 3, .ofNanos 40, .earliest, .latest, 5, true, some .epoch,
        .ofNanos 20, 1⟩ := by
  have hfinal : ((pausedTwice ⟨⟨0⟩⟩).foldlM handle WorldTable.empty).map (·.get? ⟨⟨0⟩⟩) =
      .ok (some ⟨⟨⟨0⟩⟩, "world", .one, 3, .ofNanos 40, .earliest, .latest, 5, true, some .epoch,
        .ofNanos 20, 1⟩) := by
    decide +kernel
  obtain ⟨ts, hfold, hget⟩ := map_eq_ok.mp hfinal
  obtain ⟨-, hnone⟩ | ⟨t, ht, hsummary, -⟩ := summarised_of_foldlM hfold ⟨⟨0⟩⟩
  · exact (Option.some_ne_none _ (hget.symm.trans hnone)).elim
  · exact ⟨ts, t, hfold, ht, hsummary, Option.some.inj (ht.symm.trans hget)⟩

end Timelines

end WorldClock
