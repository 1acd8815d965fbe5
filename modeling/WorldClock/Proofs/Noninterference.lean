import WorldClock.Channel
import WorldClock.Proofs.Manager.Locality
import WorldClock.Proofs.Manager.WeatherCalls

/-!
# Worlds do not interfere

The worlds of a process share its registry, its log, its tables and its errand. Still a process in
which only the moves about one world are made (`Manager.movesOf`) does with this world what a
process does in which all moves are made (`Manager.unaffected_by_other_worlds`): the two hold the
same of the world all the time and have called the same about it (`Manager.Follows`).
-/

namespace WorldClock

/-- The message that a call sends. -/
def Call.message? : Call → Option Message
  | .published s => some ⟨s.world.topic, s.bytes⟩
  | .weather _ _ _ => none

/-- A move of a spawn or a stop. -/
def Move.isErrand : Move → Bool
  | .spawn _ | .stop _ | .join | .read _ | .file | .conclude _ => true
  | .poll _ | .answer _ _ | .fileFor _ | .concludeFor _ _ | .crash _ _ | .update _ _ => false

namespace Manager

/-- The world that a move is about. Orders are not taken while an errand is under way. -/
def about? (p : Manager) : Move → Option WorldId
  | .spawn order => if p.isBusy then none else some order.world
  | .stop world => if p.isBusy then none else some world
  | .join | .read _ | .file | .conclude _ => p.errand.bind Errand.world?
  | .poll world | .answer world _ | .fileFor world | .concludeFor world _ | .crash world _
  | .update world _ => some world

/-- The moves of a run that are about a world. -/
def movesOf (p : Manager) (a : WorldId) : List (Moment × Move) → List (Moment × Move)
  | [] => []
  | (m, move) :: moves =>
    if p.about? move = some a then (m, move) :: (p.apply m move).movesOf a moves
    else (p.apply m move).movesOf a moves

/-- What the spawns and stops of a world come to in a run. -/
def resultsOf (p : Manager) (a : WorldId) :
    List (Moment × Move) → List (Except ManagerError Unit)
  | [] => []
  | (m, move) :: moves =>
    (if move.isErrand ∧ p.about? move = some a then (p.apply m move).result?.toList else []) ++
      (p.apply m move).resultsOf a moves

/-- The messages on a topic, the latest first. -/
def messagesOn (p : Manager) (topic : String) : List Message :=
  (p.surroundings.calls.filterMap Call.message?).filter fun message => message.topic = topic

variable {p q : Manager} {m : Moment} {a b : WorldId} {move : Move}

/-- What goes out on the topic of a world is what is published about it. -/
theorem messagesOn_topic (p : Manager) (a : WorldId) :
    p.messagesOn a.topic = (p.published a).map fun s => ⟨a.topic, s.bytes⟩ := by
  rw [messagesOn, published, snapshots]
  induction p.surroundings.calls with
  | nil => rfl
  | cons call calls ih =>
    cases call with
    | weather world synthetic season => exact ih
    | published s =>
      simp only [List.filterMap_cons, Call.message?, Call.snapshot?, List.filter_cons]
      by_cases hworld : s.world = a
      · simp [hworld, ih]
      · have htopic : s.world.topic ≠ a.topic := fun h => hworld (WorldId.topic_injective h)
        simp [hworld, htopic, ih]

/-! ### Moves about other worlds -/

theorem isBusy_eq (p : Manager) : p.isBusy = (p.errand.bind Errand.world?).isSome := by
  rw [isBusy]
  split <;> simp_all [Errand.world?]

theorem about?_spawn {order : SpawnOrder} :
    p.about? (.spawn order) = some a ↔ p.isBusy = false ∧ order.world = a := by
  rw [about?]
  cases p.isBusy <;> simp

theorem about?_stop {world : WorldId} :
    p.about? (.stop world) = some a ↔ p.isBusy = false ∧ world = a := by
  rw [about?]
  cases p.isBusy <;> simp

theorem about?_of_ticker (hinner : move.isInner = true) (hticker : move.ticker? = some b) :
    p.about? move = some b := by
  obtain rfl | ⟨r, rfl⟩ | rfl | ⟨r, rfl⟩ := Move.eq_of_ticker?_eq_some hinner hticker <;> rfl

theorem about?_of_errand (hinner : move.isInner = true) (hticker : move.ticker? = none) :
    p.about? move = p.errand.bind Errand.world? := by
  obtain rfl | ⟨failure, rfl⟩ | rfl | ⟨r, rfl⟩ := Move.eq_of_ticker?_eq_none hinner hticker <;> rfl

theorem viewOf_apply_of_about? (hp : p.Coherent) (hother : p.about? move ≠ some a) :
    (p.apply m move).viewOf a = p.viewOf a := by
  -- `apply_actsOn` says that a move acts on one world, but not on which.
  cases hinner : move.isInner with
  | true =>
    cases hticker : move.ticker? with
    | some b =>
      rw [about?_of_ticker hinner hticker] at hother
      refine viewOf_apply_of_ne hp hinner fun heq => hother ?_
      rw [heq, mover, hticker, Option.getD_some]
    | none =>
      rw [about?_of_errand hinner hticker] at hother
      cases hworld : p.errand.bind Errand.world? with
      | some b =>
        rw [hworld] at hother
        refine viewOf_apply_of_ne hp hinner fun heq => hother ?_
        rw [heq, mover, hticker, Option.getD_none, errandWorld, hworld, Option.getD_some]
      | none =>
        have hidle : p.isBusy = false := by rw [isBusy_eq, hworld, Option.isSome_none]
        rw [apply_eq_of_not_isBusy hidle hinner hticker]
  | false =>
    cases move with
    | spawn order =>
      rw [apply]
      split
      · rfl
      · next hbusy =>
        have hidle := Bool.eq_false_iff.mpr hbusy
        exact (beginSpawn_actsOn (m := m) hp order hidle).others a
          fun heq => hother (about?_spawn.mpr ⟨hidle, heq.symm⟩)
    | stop world =>
      rw [apply]
      split
      · rfl
      · next hbusy =>
        have hidle := Bool.eq_false_iff.mpr hbusy
        exact (beginStop_actsOn (m := m) hidle).others a
          fun heq => hother (about?_stop.mpr ⟨hidle, heq.symm⟩)
    | crash world culprit =>
      have hacts := stepTicker_actsOn_of_goes (m := m) (b := world) hp
        fun t s entry hentry _ => Ticker.crash_goes hentry culprit
      exact hacts.others a fun heq => hother (congrArg some heq.symm)
    | update world change =>
      obtain heq | ⟨entry, rfl, -⟩ := viewOf_update p m world a change
      · exact heq
      · exact absurd rfl hother
    | _ => cases hinner

/-- A run in which no move is about a world leaves the world as it is. -/
theorem viewOf_run_of_movesOf_eq_nil {moves : List (Moment × Move)} (hp : p.Coherent)
    (hnone : p.movesOf a moves = []) : (p.run moves).viewOf a = p.viewOf a := by
  induction moves generalizing p with
  | nil => rfl
  | cons step moves ih =>
    obtain ⟨m, move⟩ := step
    rw [movesOf] at hnone
    split at hnone
    · cases hnone
    · next hother => exact (ih (hp.apply m move) hnone).trans (viewOf_apply_of_about? hp hother)

/-! ### Two processes -/

/-- A process to which nothing happens but what is about one world, and another one. They hold the
same of this world and have called the same about it. -/
structure Follows (a : WorldId) (p q : Manager) : Prop where
  full : p.Coherent
  alone : q.Coherent
  wiring : q.wiring = p.wiring
  view : q.viewOf a = p.viewOf a
  asksOnly : q.AsksOnly a
  published : q.published a = p.published a
  weather : q.weatherCallsOf a = p.weatherCallsOf a

/-- What is about other worlds makes no difference. -/
theorem Follows.skip (h : Follows a p q) (hother : p.about? move ≠ some a) :
    Follows a (p.apply m move) q := by
  have hview := viewOf_apply_of_about? (m := m) h.full hother
  have hticker := congrArg View.ticker hview
  refine ⟨h.full.apply m move, h.alone, h.wiring.trans (apply_wiring h.full m move).symm,
    h.view.trans hview.symm, h.asksOnly, ?_, ?_⟩
  · rw [h.published, apply_publishesTicks h.full m move a, View.begins_of_ticker_eq hticker]
    rfl
  · rw [h.weather, apply_asks h.full m move a, View.asks_of_ticker_eq hticker]
    rfl

theorem Follows.not_isBusy (h : Follows a p q) (hidle : p.isBusy = false) : q.isBusy = false :=
  not_isBusy_of_asksOnly h.asksOnly
    ((congrArg View.errand h.view).trans (errand_eq_none_of_not_isBusy p a hidle))

/-- The errand about a world is the same in both. -/
theorem Follows.matches_of_errand (h : Follows a p q)
    (habout : p.errand.bind Errand.world? = some a) :
    ∃ errand, (p.viewOf a).errand = some errand ∧ Matches a p q := by
  obtain ⟨errand, herrand, hworld⟩ := Option.bind_eq_some_iff.mp habout
  have hview := errand_eq_some p herrand hworld
  exact ⟨errand, hview, matches_of_view h.wiring h.view hview⟩

theorem Follows.matches_apply (h : Follows a p q) (herrand : move.isErrand = true)
    (habout : p.about? move = some a) : Matches a (p.apply m move) (q.apply m move) := by
  cases hinner : move.isInner with
  | true =>
    have hticker : move.ticker? = none := by
      cases move <;> first | rfl | cases herrand
    rw [about?_of_errand hinner hticker] at habout
    obtain ⟨errand, hview, hmatches⟩ := h.matches_of_errand habout
    exact hmatches.apply h.full hview hinner hticker
  | false =>
    have halike := alike_of_view h.wiring h.view
    cases move with
    | spawn order =>
      obtain ⟨hidle, rfl⟩ := about?_spawn.mp habout
      rw [apply, apply, hidle, h.not_isBusy hidle]
      exact halike.beginSpawn
    | stop world =>
      obtain ⟨hidle, rfl⟩ := about?_stop.mp habout
      rw [apply, apply, hidle, h.not_isBusy hidle]
      exact halike.beginStop
    | crash _ _ | update _ _ => cases herrand
    | _ => cases hinner

theorem Follows.viewOf_apply (h : Follows a p q) (habout : p.about? move = some a) :
    (q.apply m move).viewOf a = (p.apply m move).viewOf a := by
  cases herrand : move.isErrand with
  | true => exact (h.matches_apply herrand habout).viewOf_eq
  | false =>
    cases move with
    | poll _ | answer _ _ | fileFor _ | concludeFor _ _ =>
      exact viewOf_apply_congr h.full h.wiring h.view rfl (.inl habout)
    | crash world culprit =>
      obtain rfl : world = a := Option.some.inj habout
      exact viewOf_stepTicker_congr h.view fun t _ => ⟨rfl, alike_of_viewOf_eq h.view⟩
    | update world change =>
      obtain rfl : world = a := Option.some.inj habout
      have hentry := congrArg View.entry h.view
      rw [apply, apply]
      obtain ⟨e, hp, hq⟩ | ⟨new, hp, hq⟩ := Registry.update_congr hentry change
      · rw [hp, hq]
        exact h.view
      · rw [hp, hq]
        change (q.withEntry world new).viewOf world = (p.withEntry world new).viewOf world
        rw [viewOf_withEntry_self, viewOf_withEntry_self, h.view]
    | _ => cases herrand

theorem Follows.about?_eq (h : Follows a p q) (habout : p.about? move = some a) :
    q.about? move = some a := by
  cases move with
  | spawn order =>
    obtain ⟨hidle, hworld⟩ := about?_spawn.mp habout
    exact about?_spawn.mpr ⟨h.not_isBusy hidle, hworld⟩
  | stop world =>
    obtain ⟨hidle, hworld⟩ := about?_stop.mp habout
    exact about?_stop.mpr ⟨h.not_isBusy hidle, hworld⟩
  | join | read _ | file | conclude _ =>
    obtain ⟨errand, -, hmatches⟩ := h.matches_of_errand habout
    rw [about?, hmatches.errand]
    exact habout
  | poll _ | answer _ _ | fileFor _ | concludeFor _ _ | crash _ _ | update _ _ => exact habout

/-- What is about the world has the same effect on it in both. -/
theorem Follows.keep (h : Follows a p q) (habout : p.about? move = some a) :
    Follows a (p.apply m move) (q.apply m move) := by
  have hview := h.viewOf_apply (m := m) habout
  refine ⟨h.full.apply m move, h.alone.apply m move, ?_, hview, fun b hne => ?_, ?_, ?_⟩
  · rw [apply_wiring h.full, apply_wiring h.alone, h.wiring]
  · have hother : q.about? move ≠ some b := by
      rw [h.about?_eq habout]
      exact fun heq => hne (Option.some.inj heq).symm
    rw [viewOf_apply_of_about? h.alone hother]
    exact h.asksOnly b hne
  · rw [apply_publishesTicks h.full m move a, apply_publishesTicks h.alone m move a, hview, h.view,
      h.wiring, h.published]
  · rw [apply_asks h.full m move a, apply_asks h.alone m move a, hview, h.view, h.weather]

theorem Follows.run (h : Follows a p q) (moves : List (Moment × Move)) :
    Follows a (p.run moves) (q.run (p.movesOf a moves)) ∧
      q.resultsOf a (p.movesOf a moves) = p.resultsOf a moves := by
  -- A move about `a` is made in both processes, any other one in `p` alone.
  induction moves generalizing p q with
  | nil => exact ⟨h, rfl⟩
  | cons step moves ih =>
    obtain ⟨m, move⟩ := step
    rw [movesOf, resultsOf]
    by_cases habout : p.about? move = some a
    · obtain ⟨hfollows, hresults⟩ := ih (h.keep (m := m) habout)
      rw [if_pos habout, resultsOf, hresults]
      refine ⟨hfollows, ?_⟩
      by_cases herrand : move.isErrand = true
      · rw [if_pos ⟨herrand, h.about?_eq habout⟩, if_pos ⟨herrand, habout⟩, result?, result?,
          (h.matches_apply herrand habout).errand]
      · rw [if_neg fun hboth => herrand hboth.1, if_neg fun hboth => herrand hboth.1]
    · rw [if_neg habout, if_neg fun hboth => habout hboth.2]
      exact ih (h.skip habout)

/-- What becomes of a world in a run, what its spawns and stops come to, and what goes out about
it, is what the moves about it do; those about other worlds may be left out. -/
theorem unaffected_by_other_worlds (hp : p.Coherent) (hasks : p.AsksOnly a)
    (moves : List (Moment × Move)) :
    let alone := p.run (p.movesOf a moves)
    let full := p.run moves
    alone.surroundings.registry.get? a = full.surroundings.registry.get? a ∧
      (∀ first, alone.surroundings.log.byAggregate a.text first =
        full.surroundings.log.byAggregate a.text first) ∧
      alone.isActive a = full.isActive a ∧
      p.resultsOf a (p.movesOf a moves) = p.resultsOf a moves ∧
      alone.messagesOn a.topic = full.messagesOn a.topic ∧
      alone.weatherCallsOf a = full.weatherCallsOf a := by
  intro alone full
  have hself : Follows a p p := ⟨hp, hp, rfl, rfl, hasks, rfl, rfl⟩
  obtain ⟨hfollows, hresults⟩ := hself.run moves
  have halike := alike_of_view hfollows.wiring hfollows.view
  refine ⟨halike.surroundings.entry, fun first => ?_, halike.isActive, hresults, ?_,
    hfollows.weather⟩
  · rw [EventLog.byAggregate_eq_mergeSort, EventLog.byAggregate_eq_mergeSort,
      halike.surroundings.events]
  · rw [messagesOn_topic, messagesOn_topic, hfollows.published]

/-- The standard settings, with somewhere to publish and someone to ask for the weather. -/
def calling : Wiring := { Wiring.standard with publishes := true, asksWeather := true }

/-- Two worlds take turns. The first one is asked for while it runs, makes a tick, asks for the
weather and is stopped; the second one breaks down between a tick and its record. -/
def twoInTurns : List (Moment × Move) :=
  let first : WorldId := ⟨⟨0⟩⟩
  let second : WorldId := ⟨⟨1⟩⟩
  let order (world : WorldId) : SpawnOrder := ⟨world, "world", ⟨0x40E0000000000000⟩⟩
  [(momentAt 0, .spawn (order first)), (momentAt 0, .read none),
    (momentAt 0, .spawn (order second)), (momentAt 0, .file), (momentAt 0, .conclude .answered),
    (momentAt 10, .spawn (order second)), (momentAt 10, .poll first), (momentAt 10, .read none),
    (momentAt 10, .file), (momentAt 10, .conclude .answered), (momentAt 10, .poll second),
    (momentAt 20, .spawn (order first)), (momentAt 110, .poll second), (momentAt 110, .poll first),
    (momentAt 120, .answer second .timedOut), (momentAt 120, .answer first .answered),
    (momentAt 130, .crash second "lost"), (momentAt 130, .fileFor first),
    (momentAt 130, .concludeFor first .answered), (momentAt 140, .stop second),
    (momentAt 140, .answer first (.failed .weatherReply)), (momentAt 140, .join),
    (momentAt 140, .read none), (momentAt 140, .file), (momentAt 140, .conclude .answered),
    (momentAt 150, .stop first), (momentAt 150, .poll first), (momentAt 150, .join),
    (momentAt 150, .file), (momentAt 150, .conclude .answered)]

theorem unaffected_by_other_worlds_of_twoInTurns :
    ∃ p alone full, p = start calling .empty none ∧ alone = p.run (p.movesOf ⟨⟨0⟩⟩ twoInTurns) ∧
      full = p.run twoInTurns ∧ p.Coherent ∧ p.AsksOnly ⟨⟨0⟩⟩ ∧
      (p.movesOf ⟨⟨0⟩⟩ twoInTurns).length = 16 ∧
      p.resultsOf ⟨⟨0⟩⟩ twoInTurns = [.ok (), .error (.alreadyRunning ⟨⟨0⟩⟩), .ok ()] ∧
      (full.messagesOn (WorldId.topic ⟨⟨0⟩⟩)).length = 1 ∧
      (full.weatherCallsOf ⟨⟨0⟩⟩).length = 1 ∧
      alone.surroundings.registry.get? ⟨⟨0⟩⟩ = full.surroundings.registry.get? ⟨⟨0⟩⟩ ∧
      (∀ first, alone.surroundings.log.byAggregate (WorldId.text ⟨⟨0⟩⟩) first =
        full.surroundings.log.byAggregate (WorldId.text ⟨⟨0⟩⟩) first) ∧
      alone.isActive ⟨⟨0⟩⟩ = full.isActive ⟨⟨0⟩⟩ ∧
      p.resultsOf ⟨⟨0⟩⟩ (p.movesOf ⟨⟨0⟩⟩ twoInTurns) = p.resultsOf ⟨⟨0⟩⟩ twoInTurns ∧
      alone.messagesOn (WorldId.topic ⟨⟨0⟩⟩) = full.messagesOn (WorldId.topic ⟨⟨0⟩⟩) ∧
      alone.weatherCallsOf ⟨⟨0⟩⟩ = full.weatherCallsOf ⟨⟨0⟩⟩ := by
  have hp := coherent_start calling .empty none
  have hasks : (start calling .empty none).AsksOnly ⟨⟨0⟩⟩ := asksOnly_of_not_isBusy rfl _
  exact ⟨_, _, _, rfl, rfl, rfl, hp, hasks, by decide +kernel, by decide +kernel,
    by decide +kernel, by decide +kernel, unaffected_by_other_worlds hp hasks twoInTurns⟩

end Manager

end WorldClock
