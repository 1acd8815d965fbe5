import WorldClock.Proofs.Manager.Observation
import WorldClock.Proofs.Manager.Trail

/-!
# What is restored is not behind

The events of ticks and of pauses tell the totals of the registry as they are when the log takes
them, and a timeline never gives up a total that it has reached (`Timeline.HasReached`). So once
such an event is stored, whatever is restored from then on has the totals of that moment
(`Manager.restored_not_behind`), game time as far as 64 bits of nanoseconds tell it.
-/

namespace WorldClock

/-- The totals that an event tells: the number of ticks, and game time in nanoseconds. -/
def Details.totals? : Details → Option (Count × Count)
  | .ticked d => some (d.tickCount, d.gameTimeNanos)
  | .paused d => some (d.tickCount, d.gameTimeNanos)
  | .created _ | .resumed _ => none

theorem Duration.nanos_ofNanoCount_toNanoCount (d : Duration) :
    (ofNanoCount d.toNanoCount).nanos = min d.nanos Count.greatest := by
  have hle := d.nanos_le
  change min (Count.ofNat d.nanos).toNat maxNanos = _
  rw [Count.toNat_ofNat]
  omega

theorem Duration.le_max_right (a b : Duration) : b ≤ a.max b := by
  change b.nanos ≤ (a.max b).nanos
  rw [nanos_max]
  exact Nat.le_max_right _ _

namespace Timeline

structure HasReached (t : Timeline) (tickCount : Count) (gameTime : Duration) : Prop where
  tickCount : tickCount ≤ t.tickCount
  gameTime : gameTime ≤ t.gameTime

variable {t : Timeline} {tickCount : Count} {gameTime : Duration}

theorem HasReached.raise (h : t.HasReached tickCount gameTime) (tickCount' : Count)
    (gameTime' : Duration) : (t.raise tickCount' gameTime').HasReached tickCount gameTime where
  tickCount := by
    rw [Timeline.raise]
    split
    · next hle => exact UInt64.le_trans h.tickCount hle
    · exact h.tickCount
  gameTime := Nat.le_trans h.gameTime (Duration.le_max_left _ _)

/-- No event takes a total back. -/
theorem HasReached.after (h : t.HasReached tickCount gameTime) (e : Event) (d : Details) :
    (t.after e d).HasReached tickCount gameTime := by
  cases d with
  | created d | resumed d => exact ⟨h.tickCount, h.gameTime⟩
  | ticked d | paused d =>
    obtain ⟨hticks, htime⟩ := h.raise d.tickCount d.gameTime
    exact ⟨hticks, htime⟩

theorem hasReached_raise (t : Timeline) (tickCount : Count) (gameTime : Duration) :
    (t.raise tickCount gameTime).HasReached tickCount gameTime where
  tickCount := by
    rw [raise]
    split
    · exact UInt64.le_refl _
    · next hlt => exact UInt64.le_of_lt (UInt64.not_le.mp hlt)
  gameTime := Duration.le_max_right _ _

/-- An event takes the totals to what it tells of them. -/
theorem hasReached_after (t : Timeline) (e : Event) {d : Details} {nanos : Count}
    (h : d.totals? = some (tickCount, nanos)) :
    (t.after e d).HasReached tickCount (Duration.ofNanoCount nanos) := by
  cases d with
  | created d | resumed d => cases h
  | ticked d | paused d =>
    cases h
    obtain ⟨hticks, htime⟩ := t.hasReached_raise d.tickCount d.gameTime
    exact ⟨hticks, htime⟩

end Timeline

/-- A timeline has only what events tell, and they tell game time in 64 bits of nanoseconds. -/
theorem Story.gameTime_le {a : WorldId} {events : List Event} {t : Timeline}
    (h : Story a events t) : t.gameTime.nanos ≤ Count.greatest := by
  induction h with
  | creation => exact Nat.zero_le _
  | @next e events t d hstory htells ih =>
    cases d with
    | created d | resumed d => exact ih
    | ticked d | paused d =>
      have htold : d.gameTime.nanos ≤ Count.greatest :=
        Nat.le_trans (Nat.min_le_left _ _) d.gameTimeNanos.toNat_le_greatest
      change (t.gameTime.max d.gameTime).nanos ≤ Count.greatest
      rw [Duration.nanos_max]
      exact Nat.max_le.mpr ⟨ih, htold⟩

namespace View

variable {w : Wiring} {m : Moment} {a : WorldId} {v v' : View}

/-- The event of a tick or of a pause that waits for the log tells the totals of the entry. -/
theorem IsSound.tells_totals (hv : v.IsSound w a) {f : Filing} (hfiling : v.filing? = some f)
    (hkind : f.event.kind? = some .ticked ∨ f.event.kind? = some .paused) :
    ∃ entry d, v.entry = some entry ∧ (∃ t, Story a v.events t) ∧ f.event.Tells a d ∧
      d.totals? = some (entry.tickCount, entry.gameTime.toNanoCount) := by
  obtain ⟨-, hcoherent, hchron, hatt⟩ := hv
  cases hticker : v.ticker with
  | some t =>
    rw [filing?_of_ticker hticker, Ticker.filing?] at hfiling
    split at hfiling
    · next cause gameTime filing hphase =>
      obtain rfl := Option.some.inj hfiling
      obtain ⟨entry, hentry, hstory, htells⟩ := hatt.tick_tells hchron hcoherent hticker hphase
      exact ⟨entry, _, hentry, hstory, htells, rfl⟩
    · next run filing hphase =>
      obtain rfl := Option.some.inj hfiling
      obtain ⟨entry, -, -, htells⟩ := hatt.resumption_tells hchron hcoherent hticker hphase
      rw [htells.kind] at hkind
      obtain ⟨⟨⟩⟩ | ⟨⟨⟩⟩ := hkind
    · cases hfiling
  | none =>
    rw [View.filing?, hticker] at hfiling
    obtain ⟨errand, herrand, hf⟩ := Option.bind_eq_some_iff.mp hfiling
    rw [Errand.filing?.eq_def] at hf
    split at hf
    · next order filing =>
      obtain rfl := Option.some.inj hf
      obtain ⟨now, hevent, -⟩ := hchron.creation order filing herrand
      rw [hevent, SpawnOrder.creation, Event.kind?_ofWorld] at hkind
      obtain ⟨⟨⟩⟩ | ⟨⟨⟩⟩ := hkind
    · next order known filing =>
      obtain rfl := Option.some.inj hf
      obtain ⟨-, -, d, htells⟩ := hatt.announcing_tells hchron herrand
      rw [htells.kind] at hkind
      obtain ⟨⟨⟩⟩ | ⟨⟨⟩⟩ := hkind
    · next world filing known pending =>
      obtain rfl := Option.some.inj hf
      obtain ⟨rfl, -⟩ := hcoherent.errand _ herrand
      obtain ⟨hentry, hstory, pausedAt, -, htells⟩ := hatt.pause_tells hchron herrand
      exact ⟨known, _, hentry, hstory, htells, rfl⟩
    · cases hf

/-- The totals that the timeline of a world has reached. -/
def HasReached (a : WorldId) (tickCount : Count) (gameTime : Duration) (v : View) : Prop :=
  ∃ t, Story a v.events t ∧ t.HasReached tickCount gameTime

theorem Step.hasReached {tickCount : Count} {gameTime : Duration} (hv : v.IsSound w a)
    (hsteps : v.Step w m a v') (h : v.HasReached a tickCount gameTime) :
    v'.HasReached a tickCount gameTime := by
  obtain ⟨t, hstory, hreached⟩ := h
  obtain heq | ⟨f, f', hfiling, -, hfiles, -⟩ := hsteps.events_cases hv.coherent
  · exact ⟨t, heq.symm ▸ hstory, hreached⟩
  · obtain ⟨d, htells⟩ := (hv.filing hfiling).2.tells
    obtain heq | ⟨heq, -⟩ := hfiles.events_eq
    · exact ⟨t, heq.symm ▸ hstory, hreached⟩
    · exact ⟨t.after f.event d, heq.symm ▸ hstory.next htells, hreached.after _ _⟩

/-- Once the event of a tick or of a pause is stored, the timeline has reached the totals of the
entry. -/
theorem Step.hasReached_entry (hv : v.IsSound w a) (hsteps : v.Step w m a v') {e : Event}
    (hstored : v'.events = e :: v.events)
    (hkind : e.kind? = some .ticked ∨ e.kind? = some .paused) :
    ∃ entry, v.entry = some entry ∧ v'.HasReached a entry.tickCount
      (Duration.ofNanoCount entry.gameTime.toNanoCount) := by
  have hne : v'.events ≠ v.events := by
    rw [hstored]
    exact List.cons_ne_self e v.events
  obtain heq | ⟨f, f', hfiling, -, hfiles, -⟩ := hsteps.events_cases hv.coherent
  · exact absurd heq hne
  obtain heq | ⟨heq, -⟩ := hfiles.events_eq
  · exact absurd heq hne
  obtain rfl : f.event = e := (List.cons.inj (heq.symm.trans hstored)).1
  obtain ⟨entry, d, hentry, ⟨t, hstory⟩, htells, htotals⟩ := hv.tells_totals hfiling hkind
  refine ⟨entry, hentry, t.after f.event d, ?_, t.hasReached_after f.event htotals⟩
  rw [heq]
  exact hstory.next htells

end View

/-- An event that comes last in a log comes first in the history of its world. -/
theorem EventLog.about_of_events_append {log log' : EventLog} {e : Event} {a : WorldId}
    (h : log'.events = log.events ++ [e]) (hworld : e.aggregateId = a.text) :
    log'.about a = e :: log.about a := by
  have hnewest : log'.newestFirst = e :: log.newestFirst := by
    rw [← List.reverse_inj, List.reverse_cons]
    exact h
  rw [about, hnewest, List.filter_cons, if_pos (by simpa using hworld)]
  rfl

namespace Manager

theorem restore_of_isSound {p : Manager} {a : WorldId} (hsound : (p.viewOf a).IsSound p.wiring a)
    {t : Timeline} (hstory : Story a (p.viewOf a).events t) :
    restore (p.surroundings.log.byAggregate a.text 1) a =
      .ok (some (t.toWorld, (p.viewOf a).events.length)) := by
  rw [EventLog.byAggregate_eq hsound.chronicled.ascends]
  exact restore_eq hstory

/-- Whatever a line of processes does before and after it stores the event of a tick or of a pause:
from then on a world is restored with the totals that the registry had at that moment, game time as
far as 64 bits of nanoseconds tell it. -/
theorem restored_not_behind {w : Wiring} (hw : w.IsUsable) {log : EventLog}
    (projections : Option (Dispatcher ReadModel)) {a : WorldId} (hfresh : log.about a = [])
    {before after : List Incident} {i : Incident} (hbefore : ∀ j ∈ before, j.IsOwn)
    (hown : i.IsOwn) (hafter : ∀ j ∈ after, j.IsOwn) {e : Event} (hworld : e.aggregateId = a.text)
    (hkind : e.kind? = some .ticked ∨ e.kind? = some .paused)
    (hstored : (((start w log projections).live before).meet i).surroundings.log.events =
      ((start w log projections).live before).surroundings.log.events ++ [e]) :
    let p := (start w log projections).live before
    let q := (p.meet i).live after
    ∃ entry restored count, p.surroundings.registry.get? a = some entry ∧
      restore (q.surroundings.log.byAggregate a.text 1) a = .ok (some (restored, count)) ∧
      entry.tickCount ≤ restored.tickCount ∧
      min entry.gameTime.nanos Count.greatest ≤ restored.gameTime.nanos := by
  intro p q
  have hp : p.Coherent := (coherent_start w log projections).live before
  have hsound := isSound_live hw projections hfresh hbefore
  have hevents : ((p.meet i).viewOf a).events = e :: (p.viewOf a).events :=
    EventLog.about_of_events_append hstored hworld
  have hnew := List.cons_ne_self e (p.viewOf a).events
  obtain ⟨entry, hentry, hreached⟩ : ∃ entry, (p.viewOf a).entry = some entry ∧
      ((p.meet i).viewOf a).HasReached a entry.tickCount
        (Duration.ofNanoCount entry.gameTime.toNanoCount) := by
    cases i with
    | death wiring projections => exact absurd hevents.symm hnew
    | move m move =>
      obtain heq | hsteps := apply_step hp m hown a
      · exact absurd (hevents.symm.trans (congrArg View.events heq)) hnew
      · exact hsteps.hasReached_entry hsound hevents hkind
  obtain ⟨hsound', t, hstory, hticks, htime⟩ := live_keeps_sound
    (View.HasReached a entry.tickCount (Duration.ofNanoCount entry.gameTime.toNanoCount))
    (fun _ _ _ _ hv hsteps h => hsteps.hasReached hv h) (fun _ h => h) (hp.meet i)
    (isSound_meet hp hsound hown) hafter hreached
  refine ⟨entry, t.toWorld, _, hentry, restore_of_isSound hsound' hstory, hticks, ?_⟩
  rw [← Duration.nanos_ofNanoCount_toNanoCount]
  exact htime

theorem restored_not_behind_of_interruptedOnce :
    let p := (start .standard .empty none).live ((interruptedOnce ⟨⟨0⟩⟩).take 6)
    let q := (p.meet (.move (momentAt 100) (.fileFor ⟨⟨0⟩⟩))).live ((interruptedOnce ⟨⟨0⟩⟩).drop 7)
    ∃ entry restored count, p.surroundings.registry.get? ⟨⟨0⟩⟩ = some entry ∧
      restore (q.surroundings.log.byAggregate (WorldId.text ⟨⟨0⟩⟩) 1) ⟨⟨0⟩⟩ =
        .ok (some (restored, count)) ∧
      entry.tickCount ≤ restored.tickCount ∧
      min entry.gameTime.nanos Count.greatest ≤ restored.gameTime.nanos :=
  restored_not_behind Wiring.isUsable_standard none (by rfl : EventLog.empty.about ⟨⟨0⟩⟩ = [])
    (fun j hj => isOwn_interruptedOnce ⟨⟨0⟩⟩ j (List.mem_of_mem_take hj)) rfl
    (fun j hj => isOwn_interruptedOnce ⟨⟨0⟩⟩ j (List.mem_of_mem_drop hj))
    (e := Event.ofWorld ⟨⟨0⟩⟩ 2 (momentAt 100).wall (.ticked ⟨1, 100000000, 100000000, false⟩))
    rfl (.inl rfl) (by decide +kernel)

/-- Game time outgrows what events tell of it. -/
theorem restored_behind {p : Manager} {a : WorldId} (hsound : (p.viewOf a).IsSound p.wiring a)
    {entry : World} (hentry : p.surroundings.registry.get? a = some entry)
    (hbeyond : Count.greatest < entry.gameTime.nanos) :
    ∃ restored count, restore (p.surroundings.log.byAggregate a.text 1) a =
      .ok (some (restored, count)) ∧ restored.gameTime.nanos < entry.gameTime.nanos := by
  obtain ⟨t, hstory⟩ := hsound.chronicled.story_of_entry hentry
  exact ⟨t.toWorld, _, restore_of_isSound hsound hstory,
    Nat.lt_of_le_of_lt hstory.gameTime_le hbeyond⟩

/-- A world of which one tick fills nearly all of 64 bits of nanoseconds ticks twice. -/
def outgrownOnce (world : WorldId) : List Incident :=
  [(momentAt 0, .spawn ⟨world, "world", .ofNat 150000000000⟩), (momentAt 0, .read none),
    (momentAt 0, .file), (momentAt 0, .conclude .answered), (momentAt 0, .poll world),
    (momentAt 100, .poll world), (momentAt 100, .fileFor world),
    (momentAt 100, .concludeFor world .answered), (momentAt 200, .poll world),
    (momentAt 200, .fileFor world)].map fun (m, move) => .move m move

theorem isOwn_outgrownOnce (world : WorldId) : ∀ i ∈ outgrownOnce world, i.IsOwn := by
  simp [outgrownOnce, Incident.IsOwn, Move.isOwn]

theorem restored_behind_of_outgrownOnce :
    let p := (start .standard .empty none).live (outgrownOnce ⟨⟨0⟩⟩)
    ∃ e entry restored count, p.surroundings.log.events.getLast? = some e ∧
      e.kind? = some .ticked ∧ p.surroundings.registry.get? ⟨⟨0⟩⟩ = some entry ∧
      restore (p.surroundings.log.byAggregate (WorldId.text ⟨⟨0⟩⟩) 1) ⟨⟨0⟩⟩ =
        .ok (some (restored, count)) ∧
      restored.gameTime.nanos < entry.gameTime.nanos := by
  have hsound := isSound_live Wiring.isUsable_standard none
    (by rfl : EventLog.empty.about ⟨⟨0⟩⟩ = []) (isOwn_outgrownOnce ⟨⟨0⟩⟩)
  have hlast : (((start .standard .empty none).live
      (outgrownOnce ⟨⟨0⟩⟩)).surroundings.log.events.getLast?.any fun e =>
        e.kind? = some .ticked) = true := by
    decide +kernel
  have hbeyond : ((((start .standard .empty none).live
      (outgrownOnce ⟨⟨0⟩⟩)).surroundings.registry.get? ⟨⟨0⟩⟩).any fun entry =>
        decide (Count.greatest < entry.gameTime.nanos)) = true := by
    decide +kernel
  obtain ⟨e, he, hkind⟩ := (Option.any_eq_true _ _).mp hlast
  obtain ⟨entry, hentry, hlt⟩ := (Option.any_eq_true _ _).mp hbeyond
  obtain ⟨restored, count, hrestore, hbehind⟩ :=
    restored_behind hsound hentry (of_decide_eq_true hlt)
  exact ⟨e, entry, restored, count, he, of_decide_eq_true hkind, hentry, hrestore, hbehind⟩

end Manager

end WorldClock
