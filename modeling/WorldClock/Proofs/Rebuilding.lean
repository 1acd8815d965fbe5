import WorldClock.Proofs.TimelineFold
import WorldClock.Ticker.Surroundings

/-!
# Rebuilding a read model

A rebuild hands the whole history of a world to projections that may have seen a part of it. What a
history does to a timeline is one `Timeline.Change`: it writes a name, a mark of a pause and a last
event, raises totals, and adds to the number of resumptions. To make the same change again does
nothing but the last (`Timeline.change_again`), so a rebuild mends every field of a stale timeline
except the number of resumptions, which counts those that were already known a second time
(`ReadModel.rebuilt_iff`).
-/

namespace WorldClock

/-! ### What a history changes -/

def Count.max (m n : Count) : Count := if m ≤ n then n else m

theorem Count.toNat_max (m n : Count) : (Count.max m n).toNat = Nat.max m.toNat n.toNat := by
  rw [Count.max]
  split
  · next hle => exact (Nat.max_eq_right (UInt64.le_iff_toNat_le.mp hle)).symm
  · next hlt =>
    exact (Nat.max_eq_left (Nat.le_of_lt (UInt64.lt_iff_toNat_lt.mp (UInt64.not_le.mp hlt)))).symm

theorem Count.max_zero (n : Count) : Count.max n 0 = n := by
  rw [← UInt64.toNat_inj, Count.toNat_max]
  exact Nat.max_zero _

theorem Count.max_self (n : Count) : Count.max n n = n := if_pos (UInt64.le_refl n)

theorem Count.max_assoc (l m n : Count) :
    Count.max (Count.max l m) n = Count.max l (Count.max m n) := by
  simp only [← UInt64.toNat_inj, Count.toNat_max]
  exact Nat.max_assoc _ _ _

theorem Duration.max_zero (d : Duration) : d.max .zero = d :=
  Duration.ext ((Duration.nanos_max d .zero).trans (Nat.max_zero _))

theorem Duration.max_self (d : Duration) : d.max d = d := if_pos (Nat.le_refl _)

theorem Duration.max_assoc (a b c : Duration) : (a.max b).max c = a.max (b.max c) := by
  refine Duration.ext ?_
  simp only [Duration.nanos_max]
  exact Nat.max_assoc _ _ _

theorem Count.add_right_comm (l m n : Count) :
    Count.add (Count.add l m) n = Count.add (Count.add l n) m := by
  simp only [← UInt64.toNat_inj, Count.toNat_add]
  omega

theorem Count.add_ofNat_add (n : Count) (i j : Nat) :
    Count.add n (Count.ofNat (i + j)) =
      Count.add (Count.add n (Count.ofNat i)) (Count.ofNat j) := by
  simp only [← UInt64.toNat_inj, Count.toNat_add, Count.toNat_ofNat]
  omega

theorem Count.next_eq_add (n : Count) : n.next = Count.add n (Count.ofNat 1) := by
  rw [← UInt64.toNat_inj, Count.toNat_next, Count.toNat_add, Count.toNat_ofNat]
  rfl

theorem Count.add_ofNat_zero (n : Count) : Count.add n (Count.ofNat 0) = n := by
  have hgreatest := n.toNat_le_greatest
  simp only [← UInt64.toNat_inj, Count.toNat_add, Count.toNat_ofNat]
  omega

namespace Timeline

/-- What a history does to a timeline, taken all together. -/
structure Change where
  naming : Option (String × Binary64)
  tickCount : Count
  gameTime : Duration
  weatherSyncedAt : Duration
  /-- The mark of the last pause, or none if a tick or a resumption was later. -/
  mark : Option (Option Instant)
  /-- The instant and the version of the last event. -/
  last : Option (Instant × Count)
  resumes : Nat

namespace Change

def nothing : Change := ⟨none, 0, .zero, .zero, none, none, 0⟩

def ofDetails (e : Event) : Details → Change
  | .created d =>
    { nothing with naming := some (d.name, d.dilation), last := some (e.timestamp, e.version) }
  | .ticked d =>
    { nothing with
      tickCount := d.tickCount
      gameTime := d.gameTime
      mark := some none
      last := some (e.timestamp, e.version) }
  | .paused d =>
    { nothing with
      tickCount := d.tickCount
      gameTime := d.gameTime
      weatherSyncedAt := d.weatherSyncedAt
      mark := some (some (d.pausedAt.getD e.timestamp))
      last := some (e.timestamp, e.version) }
  | .resumed _ =>
    { nothing with mark := some none, last := some (e.timestamp, e.version), resumes := 1 }

def ofEvent (e : Event) : Change := (e.told?.map (ofDetails e)).getD nothing

/-- One change after another. -/
def andThen (c d : Change) : Change where
  naming := d.naming.or c.naming
  tickCount := Count.max c.tickCount d.tickCount
  gameTime := c.gameTime.max d.gameTime
  weatherSyncedAt := c.weatherSyncedAt.max d.weatherSyncedAt
  mark := d.mark.or c.mark
  last := d.last.or c.last
  resumes := c.resumes + d.resumes

def ofHistory (events : List Event) : Change :=
  events.foldl (fun c e => c.andThen (ofEvent e)) nothing

end Change

def change (t : Timeline) (c : Change) : Timeline where
  world := t.world
  name := (c.naming.map (·.1)).getD t.name
  dilation := (c.naming.map (·.2)).getD t.dilation
  tickCount := Count.max t.tickCount c.tickCount
  gameTime := t.gameTime.max c.gameTime
  createdAt := t.createdAt
  lastEventAt := (c.last.map (·.1)).getD t.lastEventAt
  lastVersion := (c.last.map (·.2)).getD t.lastVersion
  paused := (c.mark.map (·.isSome)).getD t.paused
  pausedAt := c.mark.getD t.pausedAt
  weatherSyncedAt := t.weatherSyncedAt.max c.weatherSyncedAt
  resumes := Count.add t.resumes (Count.ofNat c.resumes)

/-- A timeline that counts some resumptions more. -/
def countMore (t : Timeline) (n : Count) : Timeline := { t with resumes := Count.add t.resumes n }

theorem raise_eq (t : Timeline) (tickCount : Count) (gameTime : Duration) :
    t.raise tickCount gameTime =
      { t with
        tickCount := Count.max t.tickCount tickCount
        gameTime := t.gameTime.max gameTime } := by
  rw [raise, Count.max]

theorem change_nothing (t : Timeline) : t.change .nothing = t := by
  have hticks : Count.max t.tickCount 0 = t.tickCount := Count.max_zero _
  have htime : t.gameTime.max .zero = t.gameTime := Duration.max_zero _
  have hweather : t.weatherSyncedAt.max .zero = t.weatherSyncedAt := Duration.max_zero _
  have hresumes : Count.add t.resumes (Count.ofNat 0) = t.resumes := Count.add_ofNat_zero _
  simp [change, Change.nothing, hticks, htime, hweather, hresumes]

theorem change_andThen (t : Timeline) (c d : Change) :
    t.change (c.andThen d) = (t.change c).change d := by
  obtain ⟨naming, ticks, time, weather, mark, last, resumes⟩ := d
  simp only [change, Change.andThen, Count.max_assoc, Duration.max_assoc, Count.add_ofNat_add]
  cases naming <;> cases mark <;> cases last <;> rfl

theorem after_eq_change (t : Timeline) (e : Event) (d : Details) :
    t.after e d = t.change (.ofDetails e d) := by
  have hticks : Count.max t.tickCount 0 = t.tickCount := Count.max_zero _
  have htime : t.gameTime.max .zero = t.gameTime := Duration.max_zero _
  have hweather : t.weatherSyncedAt.max .zero = t.weatherSyncedAt := Duration.max_zero _
  have hresumes : Count.add t.resumes (Count.ofNat 0) = t.resumes := Count.add_ofNat_zero _
  cases d with
  | created d | ticked d | paused d =>
    simp [change, after, Change.ofDetails, Change.nothing, touch, raise_eq, hticks, htime,
      hweather, hresumes]
  | resumed d =>
    simp [change, after, Change.ofDetails, Change.nothing, touch, Timeline.resumed, hticks, htime,
      hweather, Count.next_eq_add]

theorem take_eq_change (t : Timeline) (e : Event) : t.take e = t.change (.ofEvent e) := by
  rw [take, Change.ofEvent]
  cases e.told? with
  | none => exact (change_nothing t).symm
  | some d => exact after_eq_change t e d

theorem foldl_take_change (events : List Event) (t : Timeline) (c : Change) :
    events.foldl take (t.change c) =
      t.change (events.foldl (fun c e => c.andThen (.ofEvent e)) c) := by
  induction events generalizing c with
  | nil => rfl
  | cons e events ih => rw [List.foldl_cons, List.foldl_cons, take_eq_change, ← change_andThen, ih]

/-- A history as a whole makes one change. -/
theorem foldl_take (events : List Event) (t : Timeline) :
    events.foldl take t = t.change (.ofHistory events) := by
  have hchange := foldl_take_change events t .nothing
  rwa [change_nothing] at hchange

/-- To make a change again only adds to the number of resumptions. -/
theorem change_again (t : Timeline) (c : Change) :
    (t.change c).change c = (t.change c).countMore (Count.ofNat c.resumes) := by
  obtain ⟨naming, ticks, time, weather, mark, last, resumes⟩ := c
  simp only [change, countMore, Count.max_assoc, Count.max_self, Duration.max_assoc,
    Duration.max_self]
  cases naming <;> cases mark <;> cases last <;> rfl

theorem countMore_change (t : Timeline) (n : Count) (c : Change) :
    (t.countMore n).change c = (t.change c).countMore n := by
  simp only [change, countMore, Count.add_right_comm]

/-- The completed catch-ups in a history. -/
def resumptions (events : List Event) : Nat :=
  events.countP fun e => decide (e.kind? = some .resumed)

theorem resumes_ofEvent (e : Event) :
    (Change.ofEvent e).resumes = if e.kind? = some .resumed then 1 else 0 := by
  rw [Change.ofEvent]
  cases htold : e.told? with
  | none =>
    have hkind : e.kind? ≠ some .resumed := by
      intro hkind
      rw [Event.told?, hkind] at htold
      cases htold
    rw [if_neg hkind]
    rfl
  | some d =>
    rw [Event.kind?_of_told? htold]
    cases d <;> rfl

theorem resumes_ofHistory (events : List Event) :
    (Change.ofHistory events).resumes = resumptions events := by
  have hfrom (c : Change) : (events.foldl (fun c e => c.andThen (.ofEvent e)) c).resumes =
      c.resumes + resumptions events := by
    induction events generalizing c with
    | nil => rfl
    | cons e events ih =>
      rw [List.foldl_cons, ih, Change.andThen, resumes_ofEvent, resumptions, resumptions,
        List.countP_cons]
      simp only [decide_eq_true_eq]
      omega
  exact (hfrom .nothing).trans (Nat.zero_add _)

variable {world : WorldId}

theorem LeadsThrough.kind?_eq_none {events : List Event}
    (h : LeadsThrough world events none none) : ∀ e ∈ events, e.kind? = none := by
  induction events with
  | nil => simp
  | cons e events ih =>
    cases h with
    | cons hfirst hrest =>
      cases hfirst with
      | passed hkind => exact List.forall_mem_cons.mpr ⟨hkind, ih hrest⟩
      | founded htold => cases hrest.of_some.2

theorem resumptions_eq_zero {events : List Event} (h : ∀ e ∈ events, e.kind? = none) :
    resumptions events = 0 := by
  refine List.countP_eq_zero.mpr fun e he => ?_
  rw [h e he]
  exact Bool.false_ne_true

theorem countMore_zero (t : Timeline) : t.countMore (Count.ofNat 0) = t := by
  rw [countMore, Count.add_ofNat_zero]

/-- A history that is taken by a timeline of a part of it leaves the timeline of the whole, but for
the completed catch-ups in that part, which count twice. -/
theorem LeadsThrough.again {seen rest : List Event} {stale fresh : Option Timeline}
    (hseen : LeadsThrough world seen none stale)
    (hwhole : LeadsThrough world (seen ++ rest) none fresh) :
    LeadsThrough world (seen ++ rest) stale
      (fresh.map (·.countMore (Count.ofNat (resumptions seen)))) := by
  cases stale with
  | none =>
    rw [resumptions_eq_zero hseen.kind?_eq_none]
    simpa only [countMore_zero, Option.map_id'] using hwhole
  | some t =>
    obtain ⟨htakeable, first, ht⟩ := hseen.of_none
    obtain ⟨next, hnext, hrest⟩ := leadsThrough_append.mp hwhole
    obtain rfl := hseen.unique hnext
    obtain ⟨htakeable', rfl⟩ := hrest.of_some
    have hall : ∀ e ∈ seen ++ rest, e.IsTakeable :=
      List.forall_mem_append.mpr ⟨htakeable, htakeable'⟩
    have hagain : seen.foldl take t = t.countMore (Count.ofNat (resumptions seen)) := by
      rw [ht, foldl_take, foldl_take, change_again, resumes_ofHistory]
    have hmended : (seen ++ rest).foldl take t =
        (rest.foldl take t).countMore (Count.ofNat (resumptions seen)) := by
      rw [List.foldl_append, hagain, foldl_take, foldl_take, countMore_change]
    rw [Option.map_some, ← hmended]
    exact leadsThrough_some hall t

theorem countMore_eq_self_iff {t : Timeline} {n : Nat} :
    t.countMore (Count.ofNat n) = t ↔ n = 0 ∨ t.resumes.toNat = Count.greatest := by
  have hgreatest := t.resumes.toNat_le_greatest
  have hpos : 0 < Count.greatest := by decide
  have hresumes : t.countMore (Count.ofNat n) = t ↔
      Count.add t.resumes (Count.ofNat n) = t.resumes :=
    ⟨congrArg resumes, fun h => by rw [countMore, h]⟩
  rw [hresumes, ← UInt64.toNat_inj, Count.toNat_add, Count.toNat_ofNat]
  omega

end Timeline

/-! ### Rebuilding -/

theorem EventLog.aggregateId_of_mem_byAggregate {log : EventLog} {text : String} {first : Count}
    {e : Event} (h : e ∈ log.byAggregate text first) : e.aggregateId = text := by
  rw [byAggregate, List.mem_mergeSort, List.mem_filter, Bool.and_eq_true] at h
  exact of_decide_eq_true h.2.1

namespace ReadModel

/-- The projection that keeps timelines, with some timelines in it. -/
def ofTimelines (ts : Timelines) : Projection ReadModel :=
  { timelineProjection with state := .timelines ts }

theorem takes_ofTimelines {events : List Event} {ts ts' : Timelines}
    (h : events.foldlM Timelines.handle ts = .ok ts') :
    (ofTimelines ts).Takes events (ofTimelines ts') := by
  refine ⟨.timelines ts', ?_, rfl⟩
  change events.foldlM timelineProjection.handle (.timelines ts) = _
  induction events generalizing ts with
  | nil =>
    cases h
    rfl
  | cons e events ih =>
    obtain ⟨next, hhandle, hfold⟩ := foldlM_cons_eq_ok.mp h
    refine foldlM_cons_eq_ok.mpr ⟨.timelines next, ?_, ih hfold⟩
    simp only [timelineProjection, hhandle]
    rfl

/-- A rebuild of a world from its history, through a dispatcher whose timelines have seen a part of
the history, succeeds if the history is taken at all. It leaves the timeline that the whole history
gives, with one exception: catch-ups that were completed in the part seen before count twice. So it
mends a stale timeline exactly if there are none, or the count of them has come to its end. -/
theorem rebuilt_iff {log : EventLog} {text : String} {world : WorldId}
    (hworld : WorldId.ofText? text = some world) {fresh : Timelines}
    (hfresh : (log.byAggregate text 1).foldlM Timelines.handle WorldTable.empty = .ok fresh)
    {seen : List Event} (hseen : seen <+: log.byAggregate text 1) {start stale : Timelines}
    (hstart : start.get? world = none) (hstale : seen.foldlM Timelines.handle start = .ok stale)
    {earlier earlier' later later' : List (Projection ReadModel)}
    (hearlier : List.Forall₂ (Projection.Takes (log.byAggregate text 1)) earlier earlier')
    (hlater : List.Forall₂ (Projection.Takes (log.byAggregate text 1)) later later') :
    ∃ mended : Timelines,
      (⟨earlier ++ ofTimelines stale :: later⟩ : Dispatcher ReadModel).rebuild log text =
        (⟨earlier' ++ ofTimelines mended :: later'⟩, .ok (log.byAggregate text 1).length) ∧
      mended.get? world = (fresh.get? world).map
        (·.countMore (Count.ofNat (Timeline.resumptions seen))) ∧
      (mended.get? world = fresh.get? world ↔ Timeline.resumptions seen = 0 ∨
        ∃ t, fresh.get? world = some t ∧ t.resumes.toNat = Count.greatest) := by
  have habout : ∀ e ∈ log.byAggregate text 1, WorldId.ofText? e.aggregateId = some world := by
    intro e he
    rw [EventLog.aggregateId_of_mem_byAggregate he, hworld]
  rw [Dispatcher.rebuild]
  generalize log.byAggregate text 1 = history at *
  obtain ⟨rest, rfl⟩ := hseen
  have hknown := Timelines.leadsThrough_of_foldlM (List.forall_mem_append.mp habout).1 hstale
  have hwhole := Timelines.leadsThrough_of_foldlM habout hfresh
  rw [hstart] at hknown
  rw [WorldTable.get?_empty] at hwhole
  obtain ⟨mended, hfold, hmended⟩ := Timelines.foldlM_of_leadsThrough habout (hknown.again hwhole)
  have htakes := List.rel_append hearlier (.cons (takes_ofTimelines hfold) hlater)
  refine ⟨mended, Dispatcher.projectAll_of_takes htakes, hmended, ?_⟩
  rw [hmended]
  cases htimeline : fresh.get? world with
  | none =>
    rw [htimeline] at hwhole
    have hnone := (List.forall_mem_append.mp hwhole.kind?_eq_none).1
    exact ⟨fun _ => .inl (Timeline.resumptions_eq_zero hnone), fun _ => rfl⟩
  | some t =>
    rw [Option.map_some, Option.some.injEq, Timeline.countMore_eq_self_iff]
    simp only [Option.some.injEq, exists_eq_left']

/-- A world that was created and has completed one catch-up. -/
def caughtUpOnce (world : WorldId) : EventLog :=
  ⟨[Event.ofWorld world 2 .earliest (.resumed ⟨0, 0⟩),
    Event.ofWorld world 1 .earliest (.created ⟨"world", .one, false⟩)]⟩

theorem byAggregate_caughtUpOnce :
    (caughtUpOnce ⟨⟨0⟩⟩).byAggregate (WorldId.text ⟨⟨0⟩⟩) 1 =
      (caughtUpOnce ⟨⟨0⟩⟩).newestFirst.reverse := by
  have habout : (caughtUpOnce ⟨⟨0⟩⟩).about ⟨⟨0⟩⟩ = (caughtUpOnce ⟨⟨0⟩⟩).newestFirst := by
    decide +kernel
  have hascends : Ascends (caughtUpOnce ⟨⟨0⟩⟩).newestFirst := by
    unfold Ascends
    decide +kernel
  rw [EventLog.byAggregate_eq (habout ▸ hascends), habout]

/-- A rebuild by which a second projection sees the history for the first time. The timelines have
seen all of it, and count its one catch-up again. -/
theorem rebuilt_iff_of_caughtUpOnce :
    ∃ fresh mended : Timelines,
      ((caughtUpOnce ⟨⟨0⟩⟩).byAggregate (WorldId.text ⟨⟨0⟩⟩) 1).foldlM Timelines.handle
        WorldTable.empty = .ok fresh ∧
      (⟨[ofTimelines fresh, recorder "seen" []]⟩ : Dispatcher ReadModel).rebuild
          (caughtUpOnce ⟨⟨0⟩⟩) (WorldId.text ⟨⟨0⟩⟩) =
        (⟨[ofTimelines mended,
          { recorder "seen" [] with state := .seen [("world.created", 1), ("world.resumed", 2)] }]⟩,
          .ok 2) ∧
      mended.get? ⟨⟨0⟩⟩ ≠ fresh.get? ⟨⟨0⟩⟩ := by
  have hresumes : ((caughtUpOnce ⟨⟨0⟩⟩).newestFirst.reverse.foldlM Timelines.handle
      WorldTable.empty).map (fun ts => (ts.get? ⟨⟨0⟩⟩).map (·.resumes)) = .ok (some 1) := by
    decide +kernel
  rw [← byAggregate_caughtUpOnce] at hresumes
  obtain ⟨fresh, hfresh, hget⟩ := map_eq_ok.mp hresumes
  have hworld : WorldId.ofText? (WorldId.text ⟨⟨0⟩⟩) = some ⟨⟨0⟩⟩ := by decide +kernel
  have hseen : (recorder "seen" []).Takes
      ((caughtUpOnce ⟨⟨0⟩⟩).byAggregate (WorldId.text ⟨⟨0⟩⟩) 1)
      { recorder "seen" [] with state := .seen [("world.created", 1), ("world.resumed", 2)] } := by
    rw [byAggregate_caughtUpOnce]
    exact ⟨_, rfl, rfl⟩
  obtain ⟨mended, hrebuild, -, hiff⟩ := rebuilt_iff hworld hfresh (List.prefix_refl _)
    (WorldTable.get?_empty _) hfresh .nil (.cons hseen .nil)
  refine ⟨fresh, mended, hfresh, ?_, ?_⟩
  · rw [byAggregate_caughtUpOnce] at hrebuild
    exact hrebuild
  · rw [Ne, hiff, byAggregate_caughtUpOnce]
    rintro (hnone | ⟨t, ht, hgreatest⟩)
    · exact absurd hnone (by decide +kernel)
    · rw [ht, Option.map_some, Option.some.injEq] at hget
      rw [hget] at hgreatest
      exact absurd hgreatest (by decide)

end ReadModel

end WorldClock
