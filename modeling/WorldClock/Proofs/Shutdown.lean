import WorldClock.Manager.Shutdown
import WorldClock.Proofs.Manager.ActiveWorlds
import WorldClock.Proofs.Stops

/-!
# Shutdowns

A shutdown goes on turn by turn: either its caller does, or something happens in the process that it
may wait for or not. The worlds whose stops are still to be called go on ticking, the others are
paused and keep still (`Shutdown.Holds`). Since a turn does something to one world at most, a
shutdown does to each world what a process would do to which nothing else happens
(`Shutdown.Isolates`). So the order of the worlds does not matter
(`Shutdown.stops_all_in_any_order`).
-/

namespace WorldClock

namespace Shutdown

/-- Nobody but the caller spawns, stops or updates anything, and no ticker breaks down. -/
def Turn.isInner : Turn → Bool
  | .caller _ => true
  | .other _ move => move.isInner

/-- The shutdown after some turns. -/
def along (s : Shutdown) (turns : Nat → Turn) : Nat → Shutdown
  | 0 => s
  | n + 1 => (s.along turns n).turn (turns n)

/-- Whether a turn is what the caller waits for. -/
def awaits (s : Shutdown) : Turn → Bool
  | .caller _ =>
    match s.current with
    | none => !s.waiting.isEmpty
    | some _ => s.process.result?.isSome
  | .other _ move => s.current.any fun a => s.process.awaits a move

def misreports (s : Shutdown) : Turn → Bool
  | .caller _ => false
  | .other _ move => s.process.misreports move

/-! ### What holds on the way -/

/-- A shutdown of a process, when the stops of some worlds have returned and their results have been
taken. Marks are those that pauses may have, and the count is right if the log is faithful. -/
structure Holds (p : Manager) (order : List WorldId) (marked : WorldId → Instant → Prop)
    (faithful : Prop) (done : List WorldId) (s : Shutdown) : Prop where
  coherent : s.process.Coherent
  wiring : s.process.wiring = p.wiring
  order_eq : order = done ++ s.current.toList ++ s.waiting
  idle : s.current = none → s.process.isBusy = false
  waiting : ∀ a ∈ s.waiting, (s.process.viewOf a).IsTicking (p.viewOf a).pauses
  current : ∀ a, s.current = some a →
    s.process.Stops a (p.viewOf a).pauses (marked a) faithful
  returned : ∀ a ∈ done, ∃ stored,
    (s.process.viewOf a).IsPaused (p.viewOf a).pauses (marked a) stored
  others : ∀ a, a ∉ order → (s.process.viewOf a).ticker = none
  count : faithful →
    s.stopped = done.countP fun a => (p.viewOf a).pauses < (s.process.viewOf a).pauses

variable {p : Manager} {order done : List WorldId} {marked marked' : WorldId → Instant → Prop}
  {faithful faithful' : Prop} {s : Shutdown}

theorem Holds.mono (h : s.Holds p order marked faithful done)
    (hmarked : ∀ a mark, marked a mark → marked' a mark) (hfaithful : faithful' → faithful) :
    s.Holds p order marked' faithful' done where
  coherent := h.coherent
  wiring := h.wiring
  order_eq := h.order_eq
  idle := h.idle
  waiting := h.waiting
  current a ha := (h.current a ha).mono (hmarked a) hfaithful
  returned a ha := (h.returned a ha).imp fun _ hpaused => hpaused.mono (hmarked a)
  others := h.others
  count hf := h.count (hfaithful hf)

theorem count_congr {q q' : Manager} (hviews : ∀ a ∈ done, q'.viewOf a = q.viewOf a) :
    (done.countP fun a => (p.viewOf a).pauses < (q'.viewOf a).pauses) =
      done.countP fun a => (p.viewOf a).pauses < (q.viewOf a).pauses := by
  refine List.countP_congr fun a ha => ?_
  rw [hviews a ha]

/-- What is done to the world whose stop is under way leaves all that is known of the others. -/
theorem Holds.advance (h : s.Holds p order marked faithful done) (hnodup : order.Nodup)
    {s' : Shutdown} {a : WorldId} (hcurrent : s'.current = some a) (hcoherent : s'.process.Coherent)
    (hwiring : s'.process.wiring = s.process.wiring)
    (hleft : s.current.toList ++ s.waiting = a :: s'.waiting)
    (hwaiting : ∀ b ∈ s'.waiting, b ∈ s.waiting) (hstopped : s'.stopped = s.stopped)
    (hothers : ∀ b, b ≠ a → s'.process.viewOf b = s.process.viewOf b)
    (hstops : s'.process.Stops a (p.viewOf a).pauses (marked a) faithful) :
    s'.Holds p order marked faithful done := by
  have horder : order = done ++ a :: s'.waiting := by
    rw [h.order_eq, List.append_assoc, hleft]
  rw [horder] at hnodup
  obtain ⟨-, hleftNodup, hapart⟩ := List.nodup_append.mp hnodup
  have hdone : ∀ b ∈ done, s'.process.viewOf b = s.process.viewOf b := fun b hb =>
    hothers b (hapart b hb a List.mem_cons_self)
  exact {
    coherent := hcoherent
    wiring := hwiring.trans h.wiring
    order_eq := by
      rw [horder, hcurrent, Option.toList_some, List.append_assoc, List.singleton_append]
    idle := fun hnone => by
      rw [hcurrent] at hnone
      cases hnone
    waiting := fun b hb => by
      rw [hothers b fun heq => (List.nodup_cons.mp hleftNodup).1 (heq ▸ hb)]
      exact h.waiting b (hwaiting b hb)
    current := fun b hb => by
      cases hcurrent.symm.trans hb
      exact hstops
    returned := fun b hb => by
      rw [hdone b hb]
      exact h.returned b hb
    others := fun b hb => by
      rw [hothers b fun heq => hb (by rw [horder, heq]; simp)]
      exact h.others b hb
    count := fun hf => by
      rw [hstopped, count_congr hdone]
      exact h.count hf }

/-- The next stop is called. -/
theorem Holds.call (h : s.Holds p order marked faithful done) (hnodup : order.Nodup)
    (hcurrent : s.current = none) (m : Moment) :
    (s.call m).Holds p order marked faithful done := by
  rw [Shutdown.call]
  split
  · exact h
  next a rest hwaiting =>
  have hfree := h.idle hcurrent
  have hself : a ∈ s.waiting := by
    rw [hwaiting]
    exact List.mem_cons_self
  have happly : s.process.apply m (.stop a) = s.process.beginStop a := by
    rw [Manager.apply, hfree, if_neg Bool.false_ne_true]
  refine h.advance hnodup rfl (h.coherent.apply m (.stop a)) (Manager.apply_wiring h.coherent m _)
    ?_ (fun b hb => ?_) rfl (fun b hne => ?_) ?_
  · rw [hcurrent, hwaiting, Option.toList_none, List.nil_append]
  · rw [hwaiting]
    exact List.mem_cons_of_mem a hb
  · rw [happly]
    exact (Manager.beginStop_actsOn (m := m) hfree).others b hne
  · rw [happly]
    exact Manager.stops_beginStop h.coherent hfree (h.waiting a hself)

theorem noteStop_eq (p : Manager) (a : WorldId) (stopped : Nat)
    (result : Except ManagerError Unit) :
    (p.noteStop a stopped result).1 = stopped + result.isOk.toNat ∧
      (∀ b, (p.noteStop a stopped result).2.viewOf b = p.viewOf b) ∧
      (p.noteStop a stopped result).2.wiring = p.wiring ∧
      (p.noteStop a stopped result).2.errand = p.errand := by
  match result with
  | .ok () => exact ⟨rfl, fun _ => rfl, rfl, rfl⟩
  | .error e => cases e <;> exact ⟨rfl, fun _ => rfl, rfl, rfl⟩

/-- A stop has returned, and the caller takes its result. -/
theorem Holds.note (h : s.Holds p order marked faithful done) {a : WorldId}
    (hcurrent : s.current = some a) :
    ∃ done', (s.note a).Holds p order marked faithful done' := by
  rw [Shutdown.note]
  split
  · exact ⟨done, h⟩
  next result hresult =>
  obtain ⟨hcount, hviews, hwiring, herrand⟩ := noteStop_eq s.process a s.stopped result
  have hover : s.process.errand = some (.over result) := Manager.errand_of_result? hresult
  obtain ⟨stored, hpaused, hstored⟩ : ∃ stored,
      (s.process.viewOf a).IsPaused (p.viewOf a).pauses (marked a) stored ∧
        (faithful → stored = result.isOk) := by
    cases h.current a hcurrent with
    | joining hself | recording hself => cases hover.symm.trans hself
    | returned hself hpaused hstored =>
      cases hover.symm.trans hself
      exact ⟨_, hpaused, hstored⟩
  exact ⟨done ++ [a], {
    coherent := fun b => by
      have hc := h.coherent b
      rwa [← hviews b, ← hwiring] at hc
    wiring := hwiring.trans h.wiring
    order_eq := by
      rw [h.order_eq, hcurrent, Option.toList_some, Option.toList_none, List.append_nil]
    idle := fun _ => by rw [Manager.isBusy, herrand, hover]
    waiting := fun b hb => by
      rw [hviews b]
      exact h.waiting b hb
    current := by rintro b ⟨⟩
    returned := fun b hb => by
      rw [hviews b]
      obtain hb | hb := List.mem_append.mp hb
      · exact h.returned b hb
      · obtain rfl := List.mem_singleton.mp hb
        exact ⟨stored, hpaused⟩
    others := fun b hb => by
      rw [hviews b]
      exact h.others b hb
    count := fun hf => by
      rw [count_congr fun b _ => hviews b, List.countP_append, List.countP_singleton,
        hpaused.pauses, hstored hf, ← h.count hf]
      refine hcount.trans ?_
      cases result.isOk <;> simp }⟩

/-- What is about tickers leaves the shutdown as it is. -/
theorem Holds.ticks (h : s.Holds p order marked faithful done) {m : Moment} {move : Move}
    (hinner : move.isInner = true) {a : WorldId} (hmover : move.ticker? = some a) :
    Holds p order marked faithful done { s with process := s.process.apply m move } := by
  have hticks := Manager.ticks_apply (m := m) h.coherent hinner hmover
  have herrand : (s.process.apply m move).errand = s.process.errand :=
    Manager.errand_apply_of_ticker hinner hmover
  have hdone : ∀ b ∈ done, (s.process.apply m move).viewOf b = s.process.viewOf b := by
    intro b hb
    obtain ⟨stored, hpaused⟩ := h.returned b hb
    exact (hticks b).none hpaused.ticker
  exact {
    coherent := h.coherent.apply m move
    wiring := (Manager.apply_wiring h.coherent m move).trans h.wiring
    order_eq := h.order_eq
    idle := fun hcurrent => by
      rw [Manager.isBusy, herrand]
      exact h.idle hcurrent
    waiting := fun b hb => (hticks b).ticking _ (h.waiting b hb)
    current := fun b hb => (h.current b hb).ticks (hticks b) herrand
    returned := fun b hb => by
      rw [hdone b hb]
      exact h.returned b hb
    others := fun b hb => by
      rw [(hticks b).none (h.others b hb)]
      exact h.others b hb
    count := fun hf => by
      rw [count_congr hdone]
      exact h.count hf }

/-- The stop under way goes on. -/
theorem Holds.errand (h : s.Holds p order marked faithful done) (hnodup : order.Nodup) {m : Moment}
    {move : Move} (hinner : move.isInner = true) (hmover : move.ticker? = none)
    (hmarked : ∀ a pending, s.current = some a → move = .join →
      s.process.phase? a = some (.finished pending) →
      marked a (m.wall.backDated p.wiring.clock.tickInterval pending))
    (hfaithful : faithful → s.process.misreports move = false) :
    Holds p order marked faithful done { s with process := s.process.apply m move } := by
  cases hcurrent : s.current with
  | none =>
    rw [Manager.apply_eq_of_not_isBusy (h.idle hcurrent) hinner hmover]
    exact hcurrent ▸ h
  | some a =>
    have hstops := h.current a hcurrent
    refine h.advance hnodup rfl (h.coherent.apply m move) (Manager.apply_wiring h.coherent m move)
      (by rw [hcurrent]; rfl) (fun b hb => hb) rfl (fun b hne => ?_) ?_
    · exact Manager.viewOf_apply_of_asksOnly h.coherent hinner hstops.asksOnly
        (by rw [hmover, Option.getD_none]) hne
    · refine hstops.apply h.coherent hinner hmover (fun pending hjoin hphase => ?_) hfaithful
      rw [h.wiring]
      exact hmarked a pending hcurrent hjoin hphase

theorem Holds.turn (h : s.Holds p order marked faithful done) (hnodup : order.Nodup) {turn : Turn}
    (hinner : turn.isInner = true)
    (hmarked : ∀ a m pending, s.current = some a → turn = .other m .join →
      s.process.phase? a = some (.finished pending) →
      marked a (m.wall.backDated p.wiring.clock.tickInterval pending))
    (hfaithful : faithful → s.misreports turn = false) :
    ∃ done', (s.turn turn).Holds p order marked faithful done' := by
  cases turn with
  | caller m =>
    rw [Shutdown.turn]
    split
    · next hcurrent => exact ⟨done, h.call hnodup hcurrent m⟩
    · next a hcurrent => exact h.note hcurrent
  | other m move =>
    refine ⟨done, ?_⟩
    cases hmover : move.ticker? with
    | some a => exact h.ticks hinner hmover
    | none =>
      exact h.errand hnodup hinner hmover
        (fun a pending hcurrent hjoin hphase => hmarked a m pending hcurrent (by rw [hjoin]) hphase)
        hfaithful

/-- A process in which nothing is under way but the tickers of some worlds, none of them broken
down. -/
structure IsReady (p : Manager) (order : List WorldId) : Prop where
  coherent : p.Coherent
  free : p.isBusy = false
  quiet : ∀ a, (p.viewOf a).AppendsNoPause
  nodup : order.Nodup
  active : ∀ a, a ∈ order ↔ p.isActive a = true
  sound : ∀ a ∈ order, (p.viewOf a).isBroken = false

/-- No append of a pause is said to have failed after the log has taken it. -/
def IsFaithful (s : Shutdown) (turns : Nat → Turn) (n : Nat) : Prop :=
  ∀ k < n, (s.along turns k).misreports (turns k) = false

instance (s : Shutdown) (turns : Nat → Turn) (n : Nat) : Decidable (s.IsFaithful turns n) :=
  inferInstanceAs (Decidable (∀ k < n, (s.along turns k).misreports (turns k) = false))

variable {turns : Nat → Turn}

/-- The awaited turns that it takes at most until everything is stopped. -/
def stepsLeft (s : Shutdown) : Nat :=
  12 * s.waiting.length +
    match s.current with
    | none => 0
    | some a => 1 + (s.process.viewOf a).stepsLeft

/-- A shutdown never waits for what cannot come. -/
theorem Holds.exists_awaits (h : s.Holds p order marked faithful done) (hover : s.isOver = false) :
    ∃ turn : Turn, turn.isInner = true ∧ s.misreports turn = false ∧ s.awaits turn = true := by
  cases hcurrent : s.current with
  | none =>
    refine ⟨.caller default, rfl, rfl, ?_⟩
    rw [isOver, hcurrent] at hover
    simpa [awaits, hcurrent] using hover
  | some a =>
    obtain ⟨result, hresult⟩ | ⟨move, hinner, hfaithful, hawaits⟩ :=
      Manager.exists_awaits (h.current a hcurrent)
    · exact ⟨.caller default, rfl, rfl, by rw [awaits, hcurrent, hresult]; rfl⟩
    · exact ⟨.other default move, hinner, hfaithful, by rw [awaits, hcurrent]; exact hawaits⟩

/-- The world to which a turn does something. -/
def mover? (s : Shutdown) : Turn → Option WorldId
  | .caller _ => if s.current.isNone then s.waiting.head? else none
  | .other _ move => move.ticker?.or s.current

/-- What a turn does to a world. -/
def Turn.move (a : WorldId) : Turn → Moment × Move
  | .caller m => (m, .stop a)
  | .other m move => (m, move)

/-- What happens to a world, in its order, whatever happens to others in between. -/
def movesOf (s : Shutdown) (turns : Nat → Turn) (a : WorldId) (n : Nat) : List (Moment × Move) :=
  ((List.range n).filter fun k => (s.along turns k).mover? (turns k) = some a).map fun k =>
    (turns k).move a

/-- A process to which nothing happens but what happens to one world in a shutdown. -/
structure Isolates (a : WorldId) (s : Shutdown) (q : Manager) : Prop where
  coherent : q.Coherent
  wiring : q.wiring = s.process.wiring
  asksOnly : q.AsksOnly a
  view : q.viewOf a = s.process.viewOf a

variable {a : WorldId} {q : Manager}

theorem Isolates.note (hq : Isolates a s q) (b : WorldId) : Isolates a (s.note b) q := by
  rw [Shutdown.note]
  split
  · exact hq
  · next result hresult =>
    obtain ⟨-, hviews, hwiring, -⟩ := noteStop_eq s.process b s.stopped result
    exact ⟨hq.coherent, hq.wiring.trans hwiring.symm, hq.asksOnly, hq.view.trans (hviews a).symm⟩

theorem IsReady.perm {order' : List WorldId} (hp : IsReady p order) (h : order'.Perm order) :
    IsReady p order' where
  coherent := hp.coherent
  free := hp.free
  quiet := hp.quiet
  nodup := h.nodup_iff.mpr hp.nodup
  active a := h.mem_iff.trans (hp.active a)
  sound a ha := hp.sound a (h.mem_iff.mp ha)

open Manager (momentAt pausedOnce)

def twoWorldsMoves : List (Moment × Move) :=
  pausedOnce ⟨⟨0⟩⟩ ++
    [(momentAt 750, .spawn ⟨⟨⟨0⟩⟩, "world", .one⟩), (momentAt 750, .read none),
      (momentAt 750, .file), (momentAt 750, .conclude .answered), (momentAt 750, .poll ⟨⟨0⟩⟩),
      (momentAt 750, .poll ⟨⟨0⟩⟩), (momentAt 760, .fileFor ⟨⟨0⟩⟩),
      (momentAt 760, .concludeFor ⟨⟨0⟩⟩ .answered), (momentAt 780, .spawn ⟨⟨⟨1⟩⟩, "other", .one⟩),
      (momentAt 780, .read none), (momentAt 780, .file), (momentAt 780, .conclude .answered),
      (momentAt 780, .poll ⟨⟨1⟩⟩)]

/-- Of two worlds, one has made one of six ticks that it owes, and the other one waits for its first
tick. -/
def twoWorlds : List Incident := twoWorldsMoves.map fun (m, move) => .move m move

end Shutdown

end WorldClock
