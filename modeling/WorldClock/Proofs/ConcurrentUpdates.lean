import Mathlib.Algebra.Ring.Nat
import WorldClock.Proofs.Manager.Interference

/-!
# No tick is lost to concurrent updates

A tick is an update of the registry like any other, and one that is refused is told and forgotten: a
catch-up would count it all the same. It is never refused, whatever others write in between and in
whatever state they have registered the world: a ticker stands on an entry that carries its mark
rightly (`Manager.IsManned`), and a clock that goes forward breaks nothing else. So the totals of a
world's clock are the sum of all that was added to them, by ticks and by others
(`Manager.total_through`).
-/

namespace WorldClock

/-- A total of a world's clock. It grows up to a greatest value and stops there. -/
inductive Total where
  | ticks
  | gameTime

namespace Total

def of : Total → World → Nat
  | .ticks, world => world.tickCount.toNat
  | .gameTime, world => world.gameTime.nanos

def most : Total → Nat
  | .ticks => Count.greatest
  | .gameTime => Duration.maxNanos

/-- What a tick of so much game time adds. -/
def share : Total → Duration → Nat
  | .ticks, _ => 1
  | .gameTime, delta => delta.nanos

variable (total : Total) {old new : World}

theorem of_le_most (world : World) : total.of world ≤ total.most := by
  cases total with
  | ticks => exact world.tickCount.toNat_le_greatest
  | gameTime => exact world.gameTime.nanos_le

theorem of_eq (hticks : new.tickCount = old.tickCount) (htime : new.gameTime = old.gameTime) :
    total.of new = total.of old := by
  cases total with
  | ticks => exact congrArg UInt64.toNat hticks
  | gameTime => exact congrArg Duration.nanos htime

theorem of_ticked (world : World) (delta : Duration) (now : Instant) :
    total.of (world.ticked delta now) = min (total.of world + total.share delta) total.most := by
  cases total with
  | ticks => exact Count.toNat_next world.tickCount
  | gameTime => exact Duration.nanos_add world.gameTime delta

theorem of_le_of_regression (h : old.regression? new = none) : total.of old ≤ total.of new := by
  obtain ⟨-, hticks, htime, -⟩ := World.regression?_eq_none.mp h
  cases total with
  | ticks => exact UInt64.le_iff_toNat_le.mp hticks
  | gameTime => exact htime

theorem sum_share_ticks (deltas : List Duration) :
    (deltas.map Total.ticks.share).sum = deltas.length := by
  induction deltas with
  | nil => rfl
  | cons delta deltas ih =>
    rw [List.map_cons, List.sum_cons, ih, List.length_cons, share, Nat.add_comm]

end Total

namespace Manager

variable {p : Manager} {a : WorldId}

/-! ### What is added to a clock -/

/-- The game time of the tick that a world's ticker makes at an occurrence, if it makes one. -/
def tickAt? (p : Manager) (a : WorldId) : Occurrence → Option Duration
  | .move m (.poll world) =>
    if world = a then
      (p.tickers.get? a).bind fun t => (t.cause? p.wiring m).map fun _ => t.delta
    else none
  | _ => none

/-- The game times of the ticks that a world's ticker makes. -/
def ticksMade (p : Manager) (a : WorldId) : List Occurrence → List Duration
  | [] => []
  | o :: occurrences => (p.tickAt? a o).toList ++ (p.undergo o).ticksMade a occurrences

/-- A total of a world's clock, none if the world is not registered. -/
def total (p : Manager) (total : Total) (a : WorldId) : Nat :=
  (p.surroundings.registry.get? a).elim 0 total.of

/-- What the update of someone else adds to a total of a world's clock. -/
def addedAt (p : Manager) (total : Total) (a : WorldId) : Occurrence → Nat
  | .move m (.update world change) =>
    (p.undergo (.move m (.update world change))).total total a - p.total total a
  | _ => 0

/-- What others add to a total of a world's clock. -/
def addedByOthers (p : Manager) (total : Total) (a : WorldId) : List Occurrence → Nat
  | [] => 0
  | o :: occurrences => p.addedAt total a o + (p.undergo o).addedByOthers total a occurrences

/-! ### One occurrence -/

/-- A tick that is due goes through, and changes nothing but the totals of its clock and the instant
of the last tick. -/
theorem apply_tick (hp : p.IsManned) {t : Ticker} (hticker : p.tickers.get? a = some t)
    {entry : World} (hentry : p.surroundings.registry.get? a = some entry) {m : Moment}
    {cause : TickCause} (hcause : t.cause? p.wiring m = some cause) :
    p.surroundings.registry.update t.world (World.ticked t.delta m.wall) =
        .ok (entry.ticked t.delta m.wall,
          (p.apply m (.poll a)).surroundings.registry) ∧
      (p.apply m (.poll a)).surroundings.registry =
        ⟨p.surroundings.registry.table.set a (entry.ticked t.delta m.wall)⟩ := by
  obtain ⟨rfl, found, hfound, hfits⟩ := hp a t hticker
  obtain rfl : entry = found := Option.some.inj (hentry.symm.trans hfound)
  have hupdate := Registry.update_eq _ hentry (World.regression?_ticked hfits t.delta m.wall)
  have hregistry : (p.apply m (.poll t.world)).surroundings.registry =
      ⟨p.surroundings.registry.table.set t.world (entry.ticked t.delta m.wall)⟩ := by
    simp only [apply, stepTicker, hticker, Ticker.poll_of_cause hcause, Ticker.tick, hupdate]
    split <;> rfl
  exact ⟨by rw [hregistry, hupdate], hregistry⟩

theorem keepsClocks_stepTicker (m : Moment) {b : WorldId}
    {step : Ticker → Surroundings → Ticker × Surroundings}
    (hwrites : ∀ t, p.tickers.get? b = some t →
      t.Writes m p.surroundings.registry none (step t p.surroundings).2.registry) :
    p.surroundings.registry.KeepsClocks (p.stepTicker b step).surroundings.registry := by
  rw [stepTicker]
  split
  · exact Registry.keepsClocks_refl _
  · next t hticker => exact (hwrites t hticker).keepsClocks

/-- A move that is no turn of a ticker and no update from outside moves no clock. -/
theorem keepsClocks_apply {m : Moment} {move : Move} (hown : move.isOwn = true)
    (hpoll : ∀ world, move ≠ .poll world) :
    p.surroundings.registry.KeepsClocks (p.apply m move).surroundings.registry := by
  cases move with
  | spawn | stop | join | read | file | conclude => exact (tends_apply rfl).clocks
  | poll world => exact absurd rfl (hpoll world)
  | answer world reply => exact keepsClocks_stepTicker m fun _ _ => Ticker.answer_writes reply
  | fileFor world => exact keepsClocks_stepTicker m fun _ _ => Ticker.file_writes
  | concludeFor world reply =>
    exact keepsClocks_stepTicker m fun _ _ => Ticker.conclude_writes reply
  | crash world culprit => exact keepsClocks_stepTicker m fun _ _ => .nothing none
  | update world change => cases hown

/-- From one process to another, a world's clock gets ticks of the given game times, and what others
add to it. -/
def Adds (p q : Manager) (a : WorldId) (ticks : List Duration) (others : Total → Nat) : Prop :=
  ∀ entry, p.surroundings.registry.get? a = some entry →
    ∃ new, q.surroundings.registry.get? a = some new ∧ ∀ total : Total, total.of new =
      min (total.of entry + (ticks.map total.share).sum + others total) total.most

theorem adds_of_keepsClocks {q : Manager}
    (h : p.surroundings.registry.KeepsClocks q.surroundings.registry) :
    p.Adds q a [] fun _ => 0 := by
  intro entry hentry
  obtain ⟨new, hnew, hticks, htime, -⟩ := h a entry hentry
  refine ⟨new, hnew, fun total => ?_⟩
  rw [total.of_eq hticks htime]
  exact (Nat.min_eq_left (total.of_le_most entry)).symm

theorem Adds.trans {q r : Manager} {ticks ticks' : List Duration} {others others' : Total → Nat}
    (h : p.Adds q a ticks others) (h' : q.Adds r a ticks' others') :
    p.Adds r a (ticks ++ ticks') fun total => others total + others' total := by
  intro entry hentry
  obtain ⟨new, hnew, htotals⟩ := h entry hentry
  obtain ⟨last, hlast, htotals'⟩ := h' new hnew
  refine ⟨last, hlast, fun total => ?_⟩
  have hsum := htotals' total
  rw [htotals] at hsum
  simp only [List.map_append, List.sum_append]
  omega

theorem tickAt?_of_idle {m : Moment} {world : WorldId}
    (hidle : ∀ t, p.tickers.get? world = some t → t.cause? p.wiring m = none) :
    p.tickAt? a (.move m (.poll world)) = none := by
  rw [tickAt?]
  split
  · next heq =>
    rw [Option.bind_eq_none_iff]
    exact fun t ht => Option.map_eq_none_iff.mpr (hidle t (heq ▸ ht))
  · rfl

theorem adds_poll (hp : p.IsManned) (m : Moment) (world : WorldId) :
    p.Adds (p.apply m (.poll world)) a (p.tickAt? a (.move m (.poll world))).toList fun _ => 0 := by
  by_cases hidle : ∀ t, p.tickers.get? world = some t → t.cause? p.wiring m = none
  · rw [tickAt?_of_idle hidle]
    refine adds_of_keepsClocks (keepsClocks_stepTicker m fun t ht => ?_)
    exact hidle t ht ▸ Ticker.poll_writes
  · push Not at hidle
    obtain ⟨t, hticker, hbegins⟩ := hidle
    obtain ⟨cause, hcause⟩ := Option.ne_none_iff_exists'.mp hbegins
    obtain ⟨-, found, hfound, -⟩ := hp world t hticker
    have hregistry := (apply_tick hp hticker hfound hcause).2
    intro entry hentry
    by_cases heq : world = a
    · subst heq
      obtain rfl : entry = found := Option.some.inj (hentry.symm.trans hfound)
      have hone : p.tickAt? world (.move m (.poll world)) = some t.delta := by
        rw [tickAt?, if_pos rfl, hticker, Option.bind_some, hcause, Option.map_some]
      refine ⟨entry.ticked t.delta m.wall, ?_, fun total => ?_⟩
      · rw [hregistry, Registry.get?_set, if_pos rfl]
      · simp [hone, total.of_ticked]
    · refine ⟨entry, ?_, fun total => ?_⟩
      · rw [hregistry, Registry.get?_set, if_neg (Ne.symm heq), hentry]
      · rw [tickAt?, if_neg heq]
        exact (Nat.min_eq_left (total.of_le_most entry)).symm

theorem adds_update (m : Moment) (world : WorldId) (change : World → World) :
    p.Adds (p.apply m (.update world change)) a []
      fun total => p.addedAt total a (.move m (.update world change)) := by
  intro entry hentry
  have hnone (hsame : (p.apply m (.update world change)).surroundings.registry.get? a =
      some entry) (total : Total) : total.of entry = min (total.of entry + 0 +
        p.addedAt total a (.move m (.update world change))) total.most := by
    rw [addedAt, undergo, Manager.total, Manager.total, hsame, hentry, Nat.sub_self]
    exact (Nat.min_eq_left (total.of_le_most entry)).symm
  cases hupdate : p.surroundings.registry.update world change with
  | error e =>
    have hsame : (p.apply m (.update world change)).surroundings.registry.get? a = some entry := by
      rw [apply, hupdate]
      exact hentry
    exact ⟨entry, hsame, hnone hsame⟩
  | ok result =>
    obtain ⟨new, registry⟩ := result
    have hregistry : (p.apply m (.update world change)).surroundings.registry = registry := by
      rw [apply, hupdate]
      rfl
    obtain ⟨-, hget⟩ | ⟨rfl, hnew, hget, -⟩ := Registry.get?_update hupdate hentry
    · exact ⟨entry, hregistry ▸ hget, hnone (hregistry ▸ hget)⟩
    · obtain ⟨old, hold, -, hregression, -⟩ := Registry.update_eq_ok hupdate
      obtain rfl : entry = old := Option.some.inj (hentry.symm.trans hold)
      refine ⟨new, hregistry ▸ hget, fun total => ?_⟩
      have hle := total.of_le_of_regression hregression
      have hmost := total.of_le_most new
      simp only [addedAt, undergo, Manager.total, hregistry, hget, hentry, Option.elim_some,
        List.map_nil, List.sum_nil]
      omega

theorem adds_undergo (hp : p.IsManned) (o : Occurrence) :
    p.Adds (p.undergo o) a (p.tickAt? a o).toList fun total => p.addedAt total a o := by
  cases o with
  | register world =>
    refine adds_of_keepsClocks ?_
    rw [undergo]
    split
    · exact Registry.keepsClocks_refl _
    · next registry hregister => exact Registry.keepsClocks_register hregister
  | move m move =>
    cases move with
    | poll world => exact adds_poll hp m world
    | update world change => exact adds_update m world change
    | _ => exact adds_of_keepsClocks (keepsClocks_apply rfl (by rintro world ⟨⟩))

theorem IsManned.undergo (hp : p.IsManned) (o : Occurrence) : (p.undergo o).IsManned := by
  cases o with
  | register world =>
    rw [Manager.undergo]
    split
    · exact hp
    · next registry hregister =>
      exact ((tends_refl p).withRegistry (Registry.keepsClocks_register hregister)).isManned hp
  | move m move =>
    change (p.apply m move).IsManned
    cases move with
    | spawn | stop | join | read | file | conclude => exact (tends_apply rfl).isManned hp
    | poll world => exact hp.stepTicker m .poll
    | answer world reply => exact hp.stepTicker m (.answer reply)
    | fileFor world => exact hp.stepTicker m .file
    | concludeFor world reply => exact hp.stepTicker m (.conclude reply)
    | crash world culprit => exact hp.stepTicker m (.crash culprit)
    | update world change =>
      rw [apply]
      split
      · exact hp
      · next new registry hupdate =>
        exact hp.of_keepsMarks (Registry.keepsMarks_update hupdate) fun a t hticker =>
          ⟨t, hticker, rfl⟩

/-! ### All that occurs -/

theorem isManned_through (hp : p.IsManned) (occurrences : List Occurrence) :
    (p.through occurrences).IsManned := by
  induction occurrences generalizing p with
  | nil => exact hp
  | cons o occurrences ih => exact ih (hp.undergo o)

theorem adds_through (hp : p.IsManned) (occurrences : List Occurrence) :
    p.Adds (p.through occurrences) a (p.ticksMade a occurrences)
      fun total => p.addedByOthers total a occurrences := by
  induction occurrences generalizing p with
  | nil => exact adds_of_keepsClocks (Registry.keepsClocks_refl _)
  | cons o occurrences ih => exact (adds_undergo hp o).trans (ih (hp.undergo o))

/-- Whatever others register and update, and in whatever order: every tick that is due goes through
and adds itself to the clock it finds, of which it leaves all else as it is; and a clock shows what
it showed at first, all ticks made since then, and what others have added. -/
theorem no_tick_is_lost (w : Wiring) (log : EventLog) (projections : Option (Dispatcher ReadModel))
    (past future : List Occurrence) (a : WorldId) (old : World)
    (hold : ((start w log projections).through past).surroundings.registry.get? a = some old) :
    let p := (start w log projections).through past
    let q := p.through future
    ∃ found, q.surroundings.registry.get? a = some found ∧
      found.tickCount.toNat = min (old.tickCount.toNat + (p.ticksMade a future).length +
        p.addedByOthers .ticks a future) Count.greatest ∧
      found.gameTime.nanos = min (old.gameTime.nanos +
        ((p.ticksMade a future).map Duration.nanos).sum +
          p.addedByOthers .gameTime a future) Duration.maxNanos ∧
      ∀ t m cause, q.tickers.get? a = some t → t.cause? q.wiring m = some cause →
        q.surroundings.registry.update t.world (World.ticked t.delta m.wall) =
            .ok (found.ticked t.delta m.wall, (q.apply m (.poll a)).surroundings.registry) ∧
          (q.apply m (.poll a)).surroundings.registry.get? a =
            some { found with
              tickCount := found.tickCount.next
              gameTime := found.gameTime.add t.delta
              lastTickAt := m.wall } := by
  intro p q
  have hp : p.IsManned := isManned_through (isManned_start w log projections) past
  obtain ⟨found, hfound, htotals⟩ := adds_through hp future old hold
  have hticks := htotals .ticks
  have htime := htotals .gameTime
  refine ⟨found, hfound, ?_, htime, fun t m cause hticker hcause => ?_⟩
  · rwa [Total.sum_share_ticks] at hticks
  · obtain ⟨hupdate, hregistry⟩ := apply_tick (isManned_through hp future) hticker hfound hcause
    refine ⟨hupdate, ?_⟩
    rw [hregistry, Registry.get?_set, if_pos rfl]
    rfl

/-- A world is registered as running although it carries the instant of a pause, and is then
spawned. -/
def repairedOnce (world : WorldId) : List Occurrence :=
  .register { World.starting world "world" .one (momentAt 0).wall with
    pausedAt := some (momentAt 0).wall } ::
    ((pausedOnce world).take 5).map fun (m, move) => .move m move

/-- It makes two ticks. In the middle of the first one, someone else adds five ticks to its count,
and tries in vain to pause it without an instant. -/
def interfered (world : WorldId) : List Occurrence :=
  [.move (momentAt 100) (.poll world),
    .move (momentAt 110) (.update world fun w => { w with tickCount := w.tickCount + 5 }),
    .move (momentAt 110) (.update world fun w => { w with status := .paused }),
    .move (momentAt 120) (.fileFor world), .move (momentAt 120) (.concludeFor world .answered),
    .move (momentAt 200) (.poll world), .move (momentAt 210) (.fileFor world),
    .move (momentAt 210) (.concludeFor world .answered)]

theorem no_tick_is_lost_of_repairedOnce :
    let q := ((start .standard .empty none).through (repairedOnce ⟨⟨0⟩⟩)).through (interfered ⟨⟨0⟩⟩)
    ∃ found t, q.surroundings.registry.get? ⟨⟨0⟩⟩ = some found ∧ found.tickCount = 7 ∧
      q.tickers.get? ⟨⟨0⟩⟩ = some t ∧
      (q.apply (momentAt 300) (.poll ⟨⟨0⟩⟩)).surroundings.registry.get? ⟨⟨0⟩⟩ =
        some (found.ticked t.delta (momentAt 300).wall) := by
  obtain ⟨found, hfound, hticks, -, hnext⟩ := no_tick_is_lost .standard .empty none
    (repairedOnce ⟨⟨0⟩⟩) (interfered ⟨⟨0⟩⟩) ⟨⟨0⟩⟩
    (World.starting ⟨⟨0⟩⟩ "world" .one (momentAt 0).wall) (by decide +kernel)
  have hcount : found.tickCount.toNat = (7 : Count).toNat := hticks.trans (by decide +kernel)
  have hdue : ((((start .standard .empty none).through (repairedOnce ⟨⟨0⟩⟩)).through
      (interfered ⟨⟨0⟩⟩)).tickAt? ⟨⟨0⟩⟩ (.move (momentAt 300) (.poll ⟨⟨0⟩⟩))).isSome = true := by
    decide +kernel
  obtain ⟨delta, hdelta⟩ := Option.isSome_iff_exists.mp hdue
  rw [tickAt?, if_pos rfl] at hdelta
  obtain ⟨t, ht, hdelta⟩ := Option.bind_eq_some_iff.mp hdelta
  obtain ⟨cause, hcause, -⟩ := Option.map_eq_some_iff.mp hdelta
  have htick := (hnext t (momentAt 300) cause ht hcause).2
  exact ⟨found, t, hfound, UInt64.toNat_inj.mp hcount, ht, htick⟩

end Manager

end WorldClock
