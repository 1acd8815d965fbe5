import WorldClock.Proofs.Noninterference
import WorldClock.Proofs.Retirement

/-!
# A registry with other writers

Whoever holds the registry may register a world in whatever state, and update any world. So an entry
need not carry its mark of a pause rightly, and `View.Coherent` says nothing about such a process.
What always holds is `Manager.IsManned`: a ticker drives its own world, and the entry of this world
is there and carries its mark rightly. The spawn sees to it, and no accepted update undoes it.
-/

namespace WorldClock

/-- Something that happens to a process: a move, or the registration of a world by someone else. -/
inductive Occurrence where
  | move (m : Moment) (move : Move)
  | register (world : World)

/-! ### Registries -/

namespace Registry

/-- One registry comes from another without a change of any clock: no entry is lost, and none that
fits comes to misfit. -/
def KeepsClocks (r r' : Registry) : Prop :=
  ∀ a old, r.get? a = some old → ∃ new, r'.get? a = some new ∧ new.tickCount = old.tickCount ∧
    new.gameTime = old.gameTime ∧ (old.markerFits = true → new.markerFits = true)

/-- One registry comes from another in which no entry is lost, and none that fits comes to
misfit. -/
def KeepsMarks (r r' : Registry) : Prop :=
  ∀ a old, r.get? a = some old → ∃ new, r'.get? a = some new ∧
    (old.markerFits = true → new.markerFits = true)

variable {r r' r'' : Registry}

theorem KeepsClocks.keepsMarks (h : r.KeepsClocks r') : r.KeepsMarks r' := by
  intro a old hold
  obtain ⟨new, hnew, -, -, hfits⟩ := h a old hold
  exact ⟨new, hnew, hfits⟩

theorem keepsClocks_refl (r : Registry) : r.KeepsClocks r :=
  fun _ old hold => ⟨old, hold, rfl, rfl, id⟩

theorem keepsClocks_of_eq (h : r' = r) : r.KeepsClocks r' := h ▸ keepsClocks_refl r

theorem KeepsClocks.trans (h : r.KeepsClocks r') (h' : r'.KeepsClocks r'') : r.KeepsClocks r'' := by
  intro a old hold
  obtain ⟨entry, hentry, hticks, htime, hfits⟩ := h a old hold
  obtain ⟨new, hnew, hticks', htime', hfits'⟩ := h' a entry hentry
  exact ⟨new, hnew, hticks'.trans hticks, htime'.trans htime, fun h => hfits' (hfits h)⟩

theorem keepsMarks_update {world : WorldId} {change : World → World} {new : World}
    (hupdate : r.update world change = .ok (new, r')) : r.KeepsMarks r' := by
  intro a old hold
  obtain ⟨-, hget⟩ | ⟨-, -, hget, hfits⟩ := get?_update hupdate hold
  · exact ⟨old, hget, id⟩
  · exact ⟨new, hget, fun _ => hfits⟩

theorem keepsClocks_update {world : WorldId} {change : World → World} {new : World}
    (hupdate : r.update world change = .ok (new, r'))
    (htotals : ∀ w, (change w).tickCount = w.tickCount ∧ (change w).gameTime = w.gameTime) :
    r.KeepsClocks r' := by
  intro a old hold
  obtain ⟨-, hget⟩ | ⟨-, rfl, hget, hfits⟩ := get?_update hupdate hold
  · exact ⟨old, hget, rfl, rfl, id⟩
  · exact ⟨_, hget, (htotals old).1, (htotals old).2, fun _ => hfits⟩

theorem keepsClocks_register {world : World} (hregister : r.register world = .ok r') :
    r.KeepsClocks r' :=
  fun _ old hold => ⟨old, get?_register hregister hold, rfl, rfl, id⟩

end Registry

/-! ### Tickers -/

namespace Ticker

/-- Two states of one ticker. -/
structure IsSame (t t' : Ticker) : Prop where
  world : t'.world = t.world
  stop : t'.stop = t.stop

variable {w : Wiring} {m : Moment} {t : Ticker} {s : Surroundings}

theorem isSame_tick (cause : TickCause) : t.IsSame (t.tick w m cause s).1 := by
  rw [tick]
  split
  · exact ⟨rfl, rfl⟩
  · simp only
    split <;> exact ⟨rfl, rfl⟩

theorem isSame_endCatchUp (run : CatchUpRun) : t.IsSame (t.endCatchUp m run s).1 := by
  rw [endCatchUp]
  split <;> exact ⟨rfl, rfl⟩

theorem isSame_poll : t.IsSame (t.poll w m s).1 := by
  rw [poll]
  split
  · exact ⟨rfl, rfl⟩
  · exact ⟨rfl, rfl⟩
  · split
    · exact isSame_tick _
    · exact ⟨rfl, rfl⟩
  · exact ⟨rfl, rfl⟩
  · exact isSame_endCatchUp _
  · split
    · exact ⟨rfl, rfl⟩
    · split
      · exact isSame_tick _
      · exact ⟨rfl, rfl⟩
  · exact ⟨rfl, rfl⟩

theorem isSame_answer (r : Reply CallError) : t.IsSame (t.answer w m r s).1 := by
  rw [answer.eq_def]
  split <;> exact ⟨rfl, rfl⟩

theorem isSame_conclude (r : Reply LogError) : t.IsSame (t.conclude w m r s).1 := by
  rw [conclude]
  split
  · split
    · exact ⟨rfl, rfl⟩
    · rw [askWeather]
      split <;> exact ⟨rfl, rfl⟩
  · split <;> exact ⟨rfl, rfl⟩
  · exact ⟨rfl, rfl⟩

theorem isSame_file : t.IsSame (t.file s).1 := by
  rw [file]
  split <;> exact ⟨rfl, rfl⟩

theorem isSame_crash (culprit : String) : t.IsSame (t.crash culprit) := by
  rw [crash]
  split <;> exact ⟨rfl, rfl⟩

theorem Takes.isSame {step : Ticker → Surroundings → Ticker × Surroundings} (h : Takes w m step)
    (t : Ticker) (s : Surroundings) : t.IsSame (step t s).1 := by
  cases h with
  | poll => exact isSame_poll
  | answer r => exact isSame_answer r
  | file => exact isSame_file
  | conclude r => exact isSame_conclude r
  | crash culprit => exact isSame_crash culprit

/-- What a ticker that is given a turn makes its next tick for, if it makes one. -/
def cause? (w : Wiring) (m : Moment) (t : Ticker) : Option TickCause :=
  match t.phase with
  | .replaying run =>
    if run.applied < run.plan.units ∧ t.stop.isRaised = false then some (.owed run) else none
  | .waiting due =>
    if t.stop.isRaised = false ∧ due ≤ m.uptime then some (.due (due + w.clock.tickInterval.nanos))
    else none
  | _ => none

theorem poll_of_cause {cause : TickCause} (h : t.cause? w m = some cause) :
    t.poll w m s = t.tick w m cause s := by
  rw [cause?] at h
  rw [poll.eq_def]
  split at h
  · next run hphase =>
    obtain ⟨hmore, heq⟩ := Option.ite_none_right_eq_some.mp h
    cases heq
    simp only [hphase]
    exact if_pos hmore
  · next due hphase =>
    obtain ⟨⟨hstop, hdue⟩, heq⟩ := Option.ite_none_right_eq_some.mp h
    cases heq
    simp only [hphase]
    rw [if_neg (by simp [hstop]), if_pos hdue]
  · cases h

/-- What a step of a ticker writes in the registry: nothing, a mark that moves no clock, or the tick
that it makes. -/
inductive Writes (m : Moment) (t : Ticker) (r : Registry) : Option TickCause → Registry → Prop where
  | nothing (cause : Option TickCause) : Writes m t r cause r
  | mark {change : World → World} {new : World} {r' : Registry}
    (hupdate : r.update t.world change = .ok (new, r'))
    (htotals : ∀ w, (change w).tickCount = w.tickCount ∧ (change w).gameTime = w.gameTime) :
    Writes m t r none r'
  | tick {cause : TickCause} {new : World} {r' : Registry}
    (hupdate : r.update t.world (World.ticked t.delta m.wall) = .ok (new, r')) :
    Writes m t r (some cause) r'

theorem tick_writes (cause : TickCause) :
    t.Writes m s.registry (some cause) (t.tick w m cause s).2.registry := by
  rw [tick]
  split
  · exact .nothing _
  · next new registry hupdate =>
    simp only
    split <;> exact .tick hupdate

theorem endCatchUp_writes (run : CatchUpRun) :
    t.Writes m s.registry none (t.endCatchUp m run s).2.registry := by
  rw [endCatchUp]
  split
  · exact .nothing _
  · simp only
    split
    · next new registry hupdate =>
      refine .mark hupdate fun w => ?_
      obtain heq | ⟨-, heq⟩ := World.markRunning_eq w <;> rw [heq] <;> exact ⟨rfl, rfl⟩
    · exact .nothing _

theorem poll_writes : t.Writes m s.registry (t.cause? w m) (t.poll w m s).2.registry := by
  cases hcause : t.cause? w m with
  | some cause => exact poll_of_cause hcause ▸ tick_writes cause
  | none =>
    rw [cause?] at hcause
    rw [poll.eq_def]
    cases hphase : t.phase with
    | starting plan => cases plan <;> exact .nothing _
    | replaying run =>
      simp only [hphase] at hcause ⊢
      rw [if_neg (by simpa using hcause)]
      exact .nothing _
    | waiting due =>
      simp only [hphase] at hcause ⊢
      split
      · exact .nothing _
      · next hstop =>
        have hlowered : t.stop.isRaised = false := by simpa using hstop
        rw [if_neg (by simpa [hlowered] using hcause)]
        exact .nothing _
    | replayed run => exact endCatchUp_writes run
    | _ => exact .nothing _

theorem answer_writes (r : Reply CallError) :
    t.Writes m s.registry none (t.answer w m r s).2.registry := by
  rw [answer.eq_def]
  split
  · cases r <;> exact .nothing _
  · cases r <;> exact .nothing _
  · exact .nothing _

theorem conclude_writes (r : Reply LogError) :
    t.Writes m s.registry none (t.conclude w m r s).2.registry := by
  have hsettle := settle_registry (w := w) (t := t) (s := s)
  rw [conclude]
  split
  · split
    · exact .nothing _
    · rw [askWeather]
      split
      · rw [hsettle]
        exact .nothing _
      · simp only [hsettle]
        split
        · next hupdate => exact .mark hupdate fun _ => ⟨rfl, rfl⟩
        · exact hsettle .ticked _ _ ▸ .nothing _
  · split
    · exact .nothing _
    · exact hsettle .resumed _ _ ▸ .nothing _
  · exact .nothing _

theorem file_writes : t.Writes m s.registry none (t.file s).2.registry := by
  rw [file]
  split <;> exact .nothing _

theorem Takes.writes {step : Ticker → Surroundings → Ticker × Surroundings} (h : Takes w m step)
    (t : Ticker) (s : Surroundings) :
    ∃ cause, t.Writes m s.registry cause (step t s).2.registry := by
  cases h with
  | poll => exact ⟨_, poll_writes⟩
  | answer r => exact ⟨none, answer_writes r⟩
  | file => exact ⟨none, file_writes⟩
  | conclude r => exact ⟨none, conclude_writes r⟩
  | crash culprit => exact ⟨none, .nothing none⟩

theorem Writes.keepsClocks {r r' : Registry} (h : t.Writes m r none r') : r.KeepsClocks r' := by
  cases h with
  | nothing => exact Registry.keepsClocks_refl r
  | mark hupdate htotals => exact Registry.keepsClocks_update hupdate htotals

theorem Writes.keepsMarks {r r' : Registry} {cause : Option TickCause}
    (h : t.Writes m r cause r') : r.KeepsMarks r' := by
  cases h with
  | nothing => exact (Registry.keepsClocks_refl r).keepsMarks
  | mark hupdate _ | tick hupdate => exact Registry.keepsMarks_update hupdate

theorem Writes.worlds_eq {r r' : Registry} {cause : Option TickCause}
    (h : t.Writes m r cause r') : r'.worlds = r.worlds := by
  cases h with
  | nothing => rfl
  | mark hupdate _ | tick hupdate => exact Registry.worlds_update hupdate

end Ticker

namespace Manager

def undergo (p : Manager) : Occurrence → Manager
  | .move m move => p.apply m move
  | .register world =>
    match p.surroundings.registry.register world with
    | .error _ => p
    | .ok registry => p.withRegistry registry

def through (p : Manager) (occurrences : List Occurrence) : Manager :=
  occurrences.foldl undergo p

/-- Every ticker drives its own world, and the entry of this world carries the mark of a pause
exactly when it is paused. -/
def IsManned (p : Manager) : Prop :=
  ∀ a t, p.tickers.get? a = some t →
    t.world = a ∧ ∃ entry, p.surroundings.registry.get? a = some entry ∧ entry.markerFits = true

variable {p q : Manager} {m : Moment}

theorem isManned_start (w : Wiring) (log : EventLog) (projections : Option (Dispatcher ReadModel)) :
    (start w log projections).IsManned := by
  rintro a t ⟨⟩

theorem IsManned.of_keepsMarks (h : p.IsManned)
    (hmarks : p.surroundings.registry.KeepsMarks q.surroundings.registry)
    (htickers : ∀ a t', q.tickers.get? a = some t' →
      ∃ t, p.tickers.get? a = some t ∧ t'.world = t.world) : q.IsManned := by
  intro a t' hticker
  obtain ⟨t, ht, hsame⟩ := htickers a t' hticker
  obtain ⟨hworld, entry, hentry, hfits⟩ := h a t ht
  obtain ⟨new, hnew, hfits'⟩ := hmarks a entry hentry
  exact ⟨hsame.trans hworld, new, hnew, hfits' hfits⟩

theorem IsManned.stepTicker (h : p.IsManned) (m : Moment) {b : WorldId}
    {step : Ticker → Surroundings → Ticker × Surroundings}
    (htakes : Ticker.Takes p.wiring m step) : (p.stepTicker b step).IsManned := by
  rw [Manager.stepTicker]
  cases hticker : p.tickers.get? b with
  | none => exact h
  | some t =>
    obtain ⟨cause, hwrites⟩ := htakes.writes t p.surroundings
    refine h.of_keepsMarks hwrites.keepsMarks fun a t' ht' => ?_
    change (p.tickers.set b _).get? a = some t' at ht'
    rw [WorldTable.get?_set] at ht'
    split at ht'
    · next heq =>
      cases ht'
      exact ⟨t, heq ▸ hticker, (htakes.isSame t p.surroundings).world⟩
    · exact ⟨t', ht', rfl⟩

/-! ### Errands -/

/-- One process comes from another by steps of an errand: no clock moves, and every ticker keeps
what it stands on. -/
structure Tends (p q : Manager) : Prop where
  clocks : p.surroundings.registry.KeepsClocks q.surroundings.registry
  isManned : p.IsManned → q.IsManned

theorem tends_refl (p : Manager) : p.Tends p := ⟨Registry.keepsClocks_refl _, id⟩

theorem Tends.of_keepsClocks (h : p.Tends q) {q' : Manager}
    (hclocks : q.surroundings.registry.KeepsClocks q'.surroundings.registry)
    (htickers : q'.tickers = q.tickers) : p.Tends q' where
  clocks := h.clocks.trans hclocks
  isManned hp := (h.isManned hp).of_keepsMarks hclocks.keepsMarks fun _ t hticker =>
    ⟨t, htickers ▸ hticker, rfl⟩

theorem Tends.of_eq (h : p.Tends q) {q' : Manager}
    (hregistry : q'.surroundings.registry = q.surroundings.registry)
    (htickers : q'.tickers = q.tickers) : p.Tends q' :=
  h.of_keepsClocks (Registry.keepsClocks_of_eq hregistry) htickers

theorem Tends.tell (h : p.Tends q) (world : WorldId) (n : WorldNotice) :
    p.Tends (q.tell world n) := h.of_eq rfl rfl

theorem Tends.withRegistry (h : p.Tends q) {registry : Registry}
    (hclocks : q.surroundings.registry.KeepsClocks registry) : p.Tends (q.withRegistry registry) :=
  h.of_keepsClocks hclocks rfl

theorem Tends.launch (h : p.Tends q) {order : SpawnOrder} {entry : World}
    (hentry : q.surroundings.registry.get? order.world = some entry)
    (hfits : entry.markerFits = true) (version : Count) (weatherSyncedAt : Duration)
    (plan : Option CatchUpPlan) : p.Tends (q.launch order version weatherSyncedAt plan) := by
  rw [Manager.launch]
  split
  · exact h.of_eq rfl rfl
  · next t hnew =>
    obtain ⟨delta, -, rfl⟩ := Option.map_eq_some_iff.mp hnew
    refine ⟨h.clocks, fun hp a t hticker => ?_⟩
    change (q.tickers.set order.world _).get? a = some t at hticker
    rw [WorldTable.get?_set] at hticker
    split at hticker
    · next heq =>
      cases hticker
      exact ⟨heq.symm, entry, heq ▸ hentry, hfits⟩
    · exact h.isManned hp a t hticker

/-- The spawn repairs a mark that does not fit. -/
theorem Tends.takeUp (h : p.Tends q) (order : SpawnOrder) (known : World) (version : Count) :
    p.Tends (q.takeUp m order known version) := by
  rw [Manager.takeUp]
  split
  · exact h.of_eq rfl rfl
  · next new registry hupdate =>
    have hclocks := Registry.keepsClocks_update hupdate fun _ => ⟨rfl, rfl⟩
    obtain ⟨old, -, rfl, -, rfl⟩ := Registry.update_eq_ok hupdate
    have hfits := World.markerFits_resumed order (q.planFor m known) old
    refine ((h.withRegistry hclocks).tell _ _).launch ?_ hfits _ _ _
    exact (Registry.get?_set _ _ _ _).trans (if_pos rfl)

theorem Tends.announce (h : p.Tends q) (order : SpawnOrder) (known : World) (version : Count) :
    p.Tends (q.announce m order known version) := by
  rw [Manager.announce]
  split
  · exact h.of_eq rfl rfl
  · exact h.takeUp order known version

theorem Tends.enroll (h : p.Tends q) (order : SpawnOrder) : p.Tends (q.enroll m order) := by
  rw [Manager.enroll]
  split
  · exact h.of_eq rfl rfl
  · next registry hregister =>
    have hclocks := Registry.keepsClocks_register hregister
    have hfits := World.markerFits_starting order.world order.name order.dilation m.wall
    refine ((h.withRegistry hclocks).tell _ _).launch ?_ hfits _ _ _
    obtain ⟨-, rfl⟩ := Registry.register_eq_ok hregister
    exact (Registry.get?_set _ _ _ _).trans (if_pos rfl)

theorem Tends.resume (h : p.Tends q) (order : SpawnOrder) (known : World) :
    p.Tends (q.resume order known) := by
  rw [Manager.resume]
  split <;> exact h.of_eq rfl rfl

theorem Tends.restoreFrom (h : p.Tends q) (order : SpawnOrder) (history : List Event) :
    p.Tends (q.restoreFrom m order history) := by
  rw [Manager.restoreFrom]
  split
  · exact h.of_eq rfl rfl
  · exact h.of_eq rfl rfl
  · simp only
    split
    · exact h.of_eq rfl rfl
    · next registry hregister =>
      exact ((h.tell _ _).withRegistry (Registry.keepsClocks_register hregister)).resume _ _

theorem Tends.pause (h : p.Tends q) (world : WorldId) (version pending : Count) :
    p.Tends (q.pause m world version pending) := by
  rw [Manager.pause]
  split
  · exact h.of_eq rfl rfl
  · next new registry hupdate =>
    have hclocks := Registry.keepsClocks_update hupdate fun _ => ⟨rfl, rfl⟩
    exact (h.withRegistry hclocks).of_eq rfl rfl

theorem tends_beginSpawn (order : SpawnOrder) : p.Tends (p.beginSpawn order) := by
  have h := tends_refl p
  rw [beginSpawn]
  split
  · exact h.of_eq rfl rfl
  · split
    · exact h.of_eq rfl rfl
    · split
      · exact h.resume _ _
      · exact h.of_eq rfl rfl

theorem tends_beginStop (world : WorldId) : p.Tends (p.beginStop world) := by
  rw [beginStop]
  split
  · refine ⟨(tends_refl p).clocks, fun hp => hp.of_keepsMarks (tends_refl p).clocks.keepsMarks
      fun a t hticker => ?_⟩
    change (p.tickers.modify world Ticker.requestStop).get? a = some t at hticker
    rw [WorldTable.get?_modify] at hticker
    split at hticker
    · next heq =>
      obtain ⟨asked, hasked, rfl⟩ := Option.map_eq_some_iff.mp hticker
      exact ⟨asked, heq ▸ hasked, rfl⟩
    · exact ⟨t, hticker, rfl⟩
  · exact (tends_refl p).of_eq rfl rfl

theorem tends_withoutTicker (p : Manager) (b : WorldId) : p.Tends (p.withoutTicker b) := by
  refine ⟨(tends_refl p).clocks, fun hp => hp.of_keepsMarks (tends_refl p).clocks.keepsMarks
    fun a t hticker => ?_⟩
  rw [withoutTicker, WorldTable.get?_erase] at hticker
  split at hticker
  · cases hticker
  · exact ⟨t, hticker, rfl⟩

theorem tends_join (world : WorldId) : p.Tends (p.join m world) := by
  have h := tends_withoutTicker p world
  rw [join]
  split
  · exact tends_refl p
  · split
    · exact h.pause _ _ _
    · exact h.of_eq rfl rfl
    · exact tends_refl p

theorem tends_read (failure : Option LogError) : p.Tends (p.read m failure) := by
  have h := tends_refl p
  rw [read]
  split
  · split
    · exact h.of_eq rfl rfl
    · exact h.restoreFrom _ _
  · split
    · exact h.of_eq rfl rfl
    · exact h.announce _ _ _
  · split
    · exact h.of_eq rfl rfl
    · exact h.pause _ _ _
  · exact h

theorem tends_conclude (r : Reply LogError) : p.Tends (p.conclude m r) := by
  have hproject (world : WorldId) (e : Event) : p.Tends (p.project world e) :=
    (tends_refl p).of_eq (Ticker.project_registry _ _ _) rfl
  rw [conclude]
  split
  · exact tends_refl p
  · exact tends_refl p
  · exact (tends_refl p).of_eq rfl rfl
  · split
    · exact (hproject _ _).enroll _
    · exact (hproject _ _).takeUp _ _ _
    · exact (hproject _ _).of_eq rfl rfl
    · exact tends_refl p

/-- A spawn or a stop moves no clock. -/
theorem tends_apply {move : Move} (herrand : move.isErrand = true) : p.Tends (p.apply m move) := by
  cases move with
  | spawn order =>
    rw [apply]
    split
    · exact tends_refl p
    · exact tends_beginSpawn order
  | stop world =>
    rw [apply]
    split
    · exact tends_refl p
    · exact tends_beginStop world
  | join =>
    rw [apply]
    split
    · exact tends_join _
    · exact tends_refl p
  | read failure => exact tends_read failure
  | file =>
    obtain ⟨hregistry, htickers⟩ := file_leaves p
    exact (tends_refl p).of_eq hregistry htickers
  | conclude reply => exact tends_conclude reply
  | poll | answer | fileFor | concludeFor | crash | update => cases herrand

end Manager

end WorldClock
