import WorldClock.Proofs.Manager.WeatherMarks
import WorldClock.Proofs.Rebuilding
import WorldClock.Proofs.Refusals
import WorldClock.Proofs.RestoredTotals

/-!
# Timelines written in place

Whoever holds timelines in memory does not return new ones for an event, but writes into those that
are there, field by field, and what was written before an event is refused stays. `Timelines.write`
does it in this way. It reads all that an event tells before it writes the first field, so it comes
to the same as `Timelines.handle` (`on_write`): a refused event leaves every timeline as it was. An
event that is taken leads on the timeline of one world, and no total of a timeline ever falls
(`Timeline.Precedes`), whatever events come and however they are answered.
-/

namespace WorldClock

namespace Timelines

/-- Work on timelines in place: a refusal does not take back what was written before it. -/
abbrev InPlace := ExceptT Refusal (StateM Timelines)

/-- The result of work in place, and the timelines that it leaves. -/
def InPlace.on {α : Type} (work : InPlace α) (ts : Timelines) : Except Refusal α × Timelines :=
  work.run.run ts

def alter (world : WorldId) (f : Timeline → Timeline) : InPlace Unit :=
  modify fun ts => ts.modify world f

def start (world : WorldId) (t : Timeline) : InPlace Unit := modify fun ts => ts.set world t

def writeCreation (e : Event) (world : WorldId) (d : CreatedDetails) : InPlace Unit := do
  unless (← get).contains world do
    start world (Timeline.starting world e d)
  alter world fun t => { t with name := d.name }
  alter world fun t => { t with dilation := d.dilation }
  alter world fun t => t.touch e

def writeDetails (e : Event) (world : WorldId) : EventKind → InPlace Unit
  | .created => return
  | .ticked => do
    let .ticked d ← read e .ticked | return
    alter world fun t => t.raise d.tickCount d.gameTime
    alter world fun t => { t with paused := false, pausedAt := none }
  | .paused => do
    let .paused d ← read e .paused | return
    alter world fun t => t.raise d.tickCount d.gameTime
    alter world fun t => { t with weatherSyncedAt := t.weatherSyncedAt.max d.weatherSyncedAt }
    alter world fun t => { t with paused := true, pausedAt := some (d.pausedAt.getD e.timestamp) }
  | .resumed => do
    alter world fun t => { t with resumes := t.resumes.next }
    alter world fun t => { t with paused := false, pausedAt := none }

def writeWorld (e : Event) (k : EventKind) (world : WorldId) : InPlace Unit := do
  if k = .created then
    let .created d ← read e .created | return
    writeCreation e world d
  else
    unless (← get).contains world do
      throw (.beforeCreation e.tag world)
    writeDetails e world k
    alter world fun t => t.touch e

/-- An event written into timelines, one field after another. -/
def write (e : Event) : InPlace Unit :=
  match e.kind? with
  | none => return
  | some k =>
    match WorldId.ofText? e.aggregateId with
    | none => throw (.badWorldId e.aggregateId)
    | some world => writeWorld e k world

namespace InPlace

variable {α β : Type} {ts : Timelines}

theorem on_get (g : Timelines → InPlace α) : InPlace.on (get >>= g) ts = (g ts).on ts := rfl

theorem on_start (world : WorldId) (t : Timeline) (g : Unit → InPlace α) :
    InPlace.on (start world t >>= g) ts = (g ()).on (ts.set world t) := rfl

theorem on_alter (world : WorldId) (f : Timeline → Timeline) (g : Unit → InPlace α) :
    InPlace.on (alter world f >>= g) ts = (g ()).on (ts.modify world f) := rfl

theorem on_alter_last (world : WorldId) (f : Timeline → Timeline) :
    (alter world f).on ts = (.ok (), ts.modify world f) := rfl

theorem on_ok (b : β) (g : β → InPlace α) :
    InPlace.on (liftM (Except.ok b : Except Refusal β) >>= g) ts = (g b).on ts := rfl

end InPlace

/-- What a handler that leaves the timelines alone when it refuses an event answers and leaves. -/
def settled (ts : Timelines) : Except Refusal Timelines → Except Refusal Unit × Timelines
  | .ok ts' => (.ok (), ts')
  | .error refusal => (.error refusal, ts)

variable {e : Event} {world : WorldId} {ts : Timelines} {t : Timeline}

theorem kind_of_read {k : EventKind} {d : Details} (h : read e k = .ok d) : d.kind = k := by
  rw [read] at h
  split at h
  · next hdetails =>
    cases h
    exact Details.kind_of_ofBytes? hdetails
  · cases h

/-- A creation starts a timeline where there is none. -/
theorem on_writeCreation_of_none (h : ts.get? world = none) (d : CreatedDetails) :
    (writeCreation e world d).on ts =
      (.ok (), ts.set world (Timeline.starting world e d)) := by
  rw [writeCreation, InPlace.on_get, if_neg (WorldTable.not_contains_of_get? h), InPlace.on_start,
    InPlace.on_alter, InPlace.on_alter, InPlace.on_alter_last, WorldTable.modify_set,
    WorldTable.modify_set, WorldTable.modify_set]
  rfl

theorem on_writeCreation_of_some (h : ts.get? world = some t) (d : CreatedDetails) :
    (writeCreation e world d).on ts = (.ok (), ts.set world (t.after e (.created d))) := by
  rw [writeCreation, InPlace.on_get, if_pos (WorldTable.contains_of_get? h), InPlace.on_alter,
    InPlace.on_alter, InPlace.on_alter_last, WorldTable.modify_of_get? h, WorldTable.modify_set,
    WorldTable.modify_set]
  rfl

theorem created_of_read {d : Details} (h : read e .created = .ok d) : ∃ d', d = .created d' := by
  cases d with
  | created d => exact ⟨d, rfl⟩
  | ticked d | paused d | resumed d => cases kind_of_read h

theorem on_writeWorld_of_none (h : ts.get? world = none) (k : EventKind) :
    (writeWorld e k world).on ts = ts.settled (ts.handleWorld e k world) := by
  rw [writeWorld]
  simp only [handleWorld, h]
  by_cases hcreated : k = .created
  · subst hcreated
    rw [if_pos rfl, if_neg (fun hne => hne rfl)]
    cases hread : read e .created with
    | error refusal => rfl
    | ok d =>
      obtain ⟨d, rfl⟩ := created_of_read hread
      exact on_writeCreation_of_none h d
  · rw [if_neg hcreated, if_pos hcreated, InPlace.on_get,
      if_neg (WorldTable.not_contains_of_get? h)]
    rfl

/-- What an event of some kind tells is read before the first field is written. -/
theorem on_writeDetails (h : ts.get? world = some t) {k : EventKind} (hcreated : k ≠ .created) :
    InPlace.on (do writeDetails e world k; alter world fun t => t.touch e) ts =
      ts.settled (if k = .resumed then .ok (ts.set world (t.resumed e))
        else (read e k).map fun d => ts.set world (t.after e d)) := by
  cases k with
  | created => exact absurd rfl hcreated
  | ticked =>
    rw [writeDetails, if_neg (by decide)]
    cases hread : read e .ticked with
    | error refusal => rfl
    | ok d =>
      cases d with
      | ticked d =>
        rw [bind_assoc, InPlace.on_ok, bind_assoc, InPlace.on_alter, InPlace.on_alter,
          InPlace.on_alter_last, WorldTable.modify_of_get? h, WorldTable.modify_set,
          WorldTable.modify_set]
        rfl
      | created d | paused d | resumed d => cases kind_of_read hread
  | paused =>
    rw [writeDetails, if_neg (by decide)]
    cases hread : read e .paused with
    | error refusal => rfl
    | ok d =>
      cases d with
      | paused d =>
        rw [bind_assoc, InPlace.on_ok, bind_assoc, InPlace.on_alter, bind_assoc, InPlace.on_alter,
          InPlace.on_alter, InPlace.on_alter_last, WorldTable.modify_of_get? h,
          WorldTable.modify_set, WorldTable.modify_set, WorldTable.modify_set]
        rfl
      | created d | ticked d | resumed d => cases kind_of_read hread
  | resumed =>
    rw [writeDetails, if_pos rfl, bind_assoc, InPlace.on_alter, InPlace.on_alter,
      InPlace.on_alter_last, WorldTable.modify_of_get? h, WorldTable.modify_set,
      WorldTable.modify_set]
    rfl

theorem on_writeWorld_of_some (h : ts.get? world = some t) (k : EventKind) :
    (writeWorld e k world).on ts = ts.settled (ts.handleWorld e k world) := by
  rw [writeWorld]
  simp only [handleWorld, h]
  by_cases hcreated : k = .created
  · subst hcreated
    rw [if_pos rfl, if_neg (by decide)]
    cases hread : read e .created with
    | error refusal => rfl
    | ok d =>
      obtain ⟨d, rfl⟩ := created_of_read hread
      exact on_writeCreation_of_some h d
  · rw [if_neg hcreated, InPlace.on_get, if_pos (WorldTable.contains_of_get? h)]
    exact on_writeDetails h hcreated

/-- To write in place comes to the same as to take the timelines that the handler returns: an event
is refused before anything is written. -/
theorem on_write (ts : Timelines) (e : Event) : (write e).on ts = ts.settled (ts.handle e) := by
  rw [write, handle]
  cases e.kind? with
  | none => rfl
  | some k =>
    cases WorldId.ofText? e.aggregateId with
    | none => rfl
    | some world =>
      cases hget : ts.get? world with
      | none => exact on_writeWorld_of_none hget k
      | some t => exact on_writeWorld_of_some hget k

theorem on_write_cases (ts : Timelines) (e : Event) :
    (∃ ts', ts.handle e = .ok ts' ∧ (write e).on ts = (.ok (), ts')) ∨
      ∃ refusal, ts.handle e = .error refusal ∧ (write e).on ts = (.error refusal, ts) := by
  rw [on_write]
  cases ts.handle e with
  | ok ts' => exact .inl ⟨ts', rfl, rfl⟩
  | error refusal => exact .inr ⟨refusal, rfl, rfl⟩

end Timelines

/-- The projection that keeps timelines in memory leaves what writing in place leaves, and accepts
an event exactly if the writing ends well. -/
theorem ReadModel.offer_ofTimelines (ts : Timelines) (e : Event) :
    (ofTimelines ts).offer e = ofTimelines ((Timelines.write e).on ts).2 ∧
      ((ofTimelines ts).accepts e = true ↔ ((Timelines.write e).on ts).1 = .ok ()) := by
  have hstep : (ofTimelines ts).handle (ofTimelines ts).state e =
      (ts.handle e).map .timelines := rfl
  rw [Projection.offer, Projection.accepts, hstep]
  obtain ⟨ts', hhandle, hwrite⟩ | ⟨refusal, hhandle, hwrite⟩ := Timelines.on_write_cases ts e
  · rw [hhandle, hwrite]
    exact ⟨rfl, iff_of_true rfl rfl⟩
  · rw [hhandle, hwrite]
    exact ⟨rfl, iff_of_false Bool.false_ne_true (by simp)⟩

/-! ### What events make of a timeline -/

namespace Timeline

/-- A timeline as some event may have left it before: its totals were no greater, and it was created
at the same instant. -/
structure Precedes (t t' : Timeline) : Prop where
  tickCount : t.tickCount ≤ t'.tickCount
  gameTime : t.gameTime ≤ t'.gameTime
  weatherSyncedAt : t.weatherSyncedAt ≤ t'.weatherSyncedAt
  resumes : t.resumes ≤ t'.resumes
  createdAt : t'.createdAt = t.createdAt

theorem Precedes.refl (t : Timeline) : t.Precedes t :=
  ⟨UInt64.le_refl _, Nat.le_refl _, Nat.le_refl _, UInt64.le_refl _, rfl⟩

theorem Precedes.trans {t t' t'' : Timeline} (h : t.Precedes t') (h' : t'.Precedes t'') :
    t.Precedes t'' where
  tickCount := UInt64.le_trans h.tickCount h'.tickCount
  gameTime := Nat.le_trans h.gameTime h'.gameTime
  weatherSyncedAt := Nat.le_trans h.weatherSyncedAt h'.weatherSyncedAt
  resumes := UInt64.le_trans h.resumes h'.resumes
  createdAt := h'.createdAt.trans h.createdAt

theorem resumes_le_after (t : Timeline) (e : Event) (d : Details) :
    t.resumes ≤ (t.after e d).resumes := by
  cases d with
  | created d | ticked d | paused d => exact UInt64.le_refl _
  | resumed d => exact t.resumes.le_next

theorem precedes_after (t : Timeline) (e : Event) (d : Details) : t.Precedes (t.after e d) := by
  have hreached : t.HasReached t.tickCount t.gameTime := ⟨UInt64.le_refl _, Nat.le_refl _⟩
  refine ⟨(hreached.after e d).tickCount, (hreached.after e d).gameTime,
    t.weatherSyncedAt_le_after e d, t.resumes_le_after e d, ?_⟩
  cases d <;> rfl

theorem Leads.precedes {world : WorldId} {e : Event} {known : Option Timeline} {t : Timeline}
    (h : Leads world e (some t) known) : ∃ t', known = some t' ∧ t.Precedes t' := by
  cases h with
  | passed => exact ⟨t, rfl, .refl t⟩
  | next => exact ⟨_, rfl, t.precedes_after e _⟩

end Timeline

namespace Timelines

variable {e : Event} {world : WorldId} {ts ts' : Timelines} {t : Timeline}

/-- An event that is taken leads on the timeline of the world that it is of, if it is of any. -/
theorem handle_changes (h : ts.handle e = .ok ts') :
    ts' = ts ∨ ∃ world t, WorldId.ofText? e.aggregateId = some world ∧
      Timeline.Leads world e (ts.get? world) (some t) ∧ ts' = ts.set world t := by
  cases hworld : WorldId.ofText? e.aggregateId with
  | none =>
    rw [handle, hworld] at h
    split at h
    · cases h
      exact .inl rfl
    · cases h
  | some world =>
    obtain ⟨-, rfl⟩ | ⟨t, hleads, hset⟩ := handle_cases hworld h
    · exact .inl rfl
    · exact .inr ⟨world, t, rfl, hleads, hset⟩

theorem get?_handle_of_ne (h : ts.handle e = .ok ts')
    (hne : WorldId.ofText? e.aggregateId ≠ some world) : ts'.get? world = ts.get? world := by
  obtain rfl | ⟨other, t, hother, -, rfl⟩ := handle_changes h
  · rfl
  · have hsame : world ≠ other := by
      rintro rfl
      exact hne hother
    rw [WorldTable.get?_set, if_neg hsame]

/-- Only the creation of a world founds a timeline. -/
theorem founded_of_handle (h : ts.handle e = .ok ts') (hold : ts.get? world = none)
    (hnew : ts'.get? world ≠ none) :
    e.kind? = some .created ∧ WorldId.ofText? e.aggregateId = some world := by
  obtain rfl | ⟨other, t, hother, hleads, rfl⟩ := handle_changes h
  · exact absurd hold hnew
  · rw [WorldTable.get?_set] at hnew
    by_cases hsame : world = other
    · subst hsame
      rw [hold] at hleads
      cases hleads with
      | founded htold => exact ⟨Event.kind?_of_told? htold, hother⟩
    · rw [if_neg hsame] at hnew
      exact absurd hold hnew

theorem precedes_handle (h : ts.handle e = .ok ts') (hold : ts.get? world = some t) :
    ∃ t', ts'.get? world = some t' ∧ t.Precedes t' := by
  obtain rfl | ⟨other, next, -, hleads, rfl⟩ := handle_changes h
  · exact ⟨t, hold, .refl t⟩
  · rw [WorldTable.get?_set]
    by_cases hsame : world = other
    · subst hsame
      rw [hold] at hleads
      rw [if_pos rfl]
      exact hleads.precedes
    · rw [if_neg hsame]
      exact ⟨t, hold, .refl t⟩

theorem precedes_on_write (e : Event) (hold : ts.get? world = some t) :
    ∃ t', ((write e).on ts).2.get? world = some t' ∧ t.Precedes t' := by
  obtain ⟨ts', hhandle, hwrite⟩ | ⟨refusal, -, hwrite⟩ := on_write_cases ts e
  · rw [hwrite]
    exact precedes_handle hhandle hold
  · rw [hwrite]
    exact ⟨t, hold, .refl t⟩

/-- The timelines after some events, each written into what the one before it left, however that one
was answered. -/
def afterEach (ts : Timelines) (events : List Event) : Timelines :=
  events.foldl (fun ts e => ((write e).on ts).2) ts

theorem precedes_afterEach (events : List Event) (hold : ts.get? world = some t) :
    ∃ t', (ts.afterEach events).get? world = some t' ∧ t.Precedes t' := by
  induction events generalizing ts t with
  | nil => exact ⟨t, hold, .refl t⟩
  | cons e events ih =>
    obtain ⟨next, hnext, hstep⟩ := precedes_on_write e hold
    obtain ⟨last, hlast, hrest⟩ := ih hnext
    exact ⟨last, hlast, hstep.trans hrest⟩

/-- Whatever the timelines and the event: what the projection leaves is what writing in place
leaves; a refused event changes nothing; one that is taken changes no timeline but that of its
world, removes none, and founds one only where it creates a world that was not known. And whatever
the events that follow one another, refused or taken, each timeline keeps its totals or raises them
and stays created at the same instant. -/
theorem write_guards (ts : Timelines) :
    (∀ e : Event,
      let answer := ((write e).on ts).1
      let ts' := ((write e).on ts).2
      ((ReadModel.ofTimelines ts).offer e = ReadModel.ofTimelines ts' ∧
          ((ReadModel.ofTimelines ts).accepts e = true ↔ answer = .ok ())) ∧
        (∀ refusal, answer = .error refusal → ts' = ts) ∧
        (answer = .ok () →
          (∀ other, WorldId.ofText? e.aggregateId ≠ some other → ts'.get? other = ts.get? other) ∧
            (∀ world, ts.get? world ≠ none → ts'.get? world ≠ none) ∧
            ∀ world, ts.get? world = none → ts'.get? world ≠ none →
              e.kind? = some .created ∧ WorldId.ofText? e.aggregateId = some world)) ∧
      ∀ (events : List Event) (world : WorldId) (t : Timeline), ts.get? world = some t →
        ∃ t', (ts.afterEach events).get? world = some t' ∧ t.tickCount ≤ t'.tickCount ∧
          t.gameTime ≤ t'.gameTime ∧ t.weatherSyncedAt ≤ t'.weatherSyncedAt ∧
          t.resumes ≤ t'.resumes ∧ t'.createdAt = t.createdAt := by
  refine ⟨fun e => ?_, fun events world t hold => ?_⟩
  · refine ⟨ReadModel.offer_ofTimelines ts e, ?_⟩
    obtain ⟨ts', hhandle, hwrite⟩ | ⟨refusal, hhandle, hwrite⟩ := on_write_cases ts e
    · rw [hwrite]
      refine ⟨fun refusal herror => absurd herror (by simp), fun _ =>
        ⟨fun other hne => get?_handle_of_ne hhandle hne, fun world hold => ?_,
          fun world hold hnew => founded_of_handle hhandle hold hnew⟩⟩
      obtain ⟨t, hget⟩ := Option.ne_none_iff_exists'.mp hold
      obtain ⟨t', hget', -⟩ := precedes_handle hhandle hget
      simp [hget']
    · rw [hwrite]
      exact ⟨fun _ _ => rfl, fun hok => absurd hok (by simp)⟩
  · obtain ⟨t', hget, hticks, htime, hweather, hresumes, hcreated⟩ :=
      precedes_afterEach events hold
    exact ⟨t', hget, hticks, htime, hweather, hresumes, hcreated⟩

end Timelines

end WorldClock
