import WorldClock.Proofs.RestoredTotals

/-!
# Tallies of ticks

The ticks of a world stand in its history among other events. If each of them tells its number and
the sum of all up to it (`Tallies`), they can be told from their place in the history
(`Tallies.tells`), and the timeline of the world has their number and their sum, as long as no pause
tells anything else (`Story.tally_cons`).
-/

namespace WorldClock

/-- What the event of a tick tells; none of any other event. -/
def Event.tick? (e : Event) : Option TickedDetails :=
  match e.kind?, e.details? .ticked with
  | some .ticked, some (.ticked d) => some d
  | _, _ => none

def ticksOf (events : List Event) : List Event :=
  events.filter fun e => decide (e.kind? = some .ticked)

/-- The game time that ticks have added, in nanoseconds. -/
def tickedNanos : List Event → Nat
  | [] => 0
  | e :: ticks =>
    match e.tick? with
    | some d => d.tickNanos.toNat + tickedNanos ticks
    | none => tickedNanos ticks

/-- The ticks of a world, the latest one first: each tells its number, and the game time that it and
those before it have added. -/
inductive Tallies : List Event → Prop where
  | nil : Tallies []
  | cons {e : Event} {d : TickedDetails} {earlier : List Event} (htick : e.tick? = some d)
    (hcount : d.tickCount.toNat = earlier.length + 1)
    (htime : d.gameTimeNanos.toNat = tickedNanos (e :: earlier)) (hearlier : Tallies earlier) :
    Tallies (e :: earlier)

theorem Event.Tells.tick?_eq {e : Event} {a : WorldId} {d : TickedDetails}
    (h : e.Tells a (.ticked d)) : e.tick? = some d := by
  have hkind : e.kind? = some .ticked := h.kind
  have hdetails : e.details? .ticked = some (.ticked d) := h.details
  rw [tick?, hkind, hdetails]

theorem ticksOf_cons_of_tick {e : Event} (h : e.kind? = some .ticked) (events : List Event) :
    ticksOf (e :: events) = e :: ticksOf events := List.filter_cons_of_pos (by simpa using h)

theorem ticksOf_cons_of_ne {e : Event} (h : e.kind? ≠ some .ticked) (events : List Event) :
    ticksOf (e :: events) = ticksOf events := List.filter_cons_of_neg (by simpa using h)

theorem tickedNanos_cons {e : Event} {d : TickedDetails} (h : e.tick? = some d)
    (ticks : List Event) : tickedNanos (e :: ticks) = d.tickNanos.toNat + tickedNanos ticks := by
  simp only [tickedNanos, h]

theorem tickedNanos_cons_of_none {e : Event} (h : e.tick? = none) (ticks : List Event) :
    tickedNanos (e :: ticks) = tickedNanos ticks := by
  simp only [tickedNanos, h]

theorem tickedNanos_append (ticks ticks' : List Event) :
    tickedNanos (ticks ++ ticks') = tickedNanos ticks + tickedNanos ticks' := by
  induction ticks with
  | nil => exact (Nat.zero_add _).symm
  | cons e ticks ih =>
    rw [List.cons_append]
    cases htick : e.tick? with
    | none => rw [tickedNanos_cons_of_none htick, tickedNanos_cons_of_none htick, ih]
    | some d => rw [tickedNanos_cons htick, tickedNanos_cons htick, ih, Nat.add_assoc]

theorem tickedNanos_reverse (ticks : List Event) :
    tickedNanos ticks.reverse = tickedNanos ticks := by
  induction ticks with
  | nil => rfl
  | cons e ticks ih =>
    calc tickedNanos (e :: ticks).reverse = tickedNanos ticks.reverse + tickedNanos [e] := by
          rw [List.reverse_cons, tickedNanos_append]
      _ = tickedNanos [e] + tickedNanos ticks := by rw [ih, Nat.add_comm]
      _ = tickedNanos (e :: ticks) := (tickedNanos_append [e] ticks).symm

/-- The ticks in the order in which they were made. -/
theorem Tallies.tells {ticks : List Event} (h : Tallies ticks) {i : Nat} {e : Event}
    (he : ticks.reverse[i]? = some e) : ∃ d, e.tick? = some d ∧ d.tickCount.toNat = i + 1 ∧
      d.gameTimeNanos.toNat = tickedNanos (ticks.reverse.take (i + 1)) := by
  induction h with
  | nil => cases he
  | @cons latest d earlier htick hcount htime hearlier ih =>
    rw [List.reverse_cons] at he ⊢
    by_cases hlt : i < earlier.reverse.length
    · rw [List.getElem?_append_left hlt] at he
      obtain ⟨d', htells, hnumber, htotal⟩ := ih he
      exact ⟨d', htells, hnumber, by rw [htotal, List.take_append_of_le_length hlt]⟩
    · have hge : earlier.reverse.length ≤ i := Nat.le_of_not_lt hlt
      obtain ⟨hzero, heq⟩ : i - earlier.reverse.length = 0 ∧ latest = e := by
        rw [List.getElem?_append_right hge] at he
        simpa [List.getElem?_singleton] using he
      have hlength : i = earlier.length := by
        rw [List.length_reverse] at hge hzero
        omega
      subst heq hlength
      refine ⟨d, htick, hcount, ?_⟩
      rw [List.take_of_length_le (by simp), ← List.reverse_cons, tickedNanos_reverse, htime]

/-- The totals of a world are those of its ticks. -/
structure IsTallyOf (ticks : List Event) (tickCount : Count) (gameTime : Duration) : Prop where
  tickCount : tickCount.toNat = ticks.length
  gameTime : gameTime.nanos = tickedNanos ticks

theorem Timeline.tickCount_raise (t : Timeline) (tickCount : Count) (gameTime : Duration)
    (h : t.tickCount.toNat ≤ tickCount.toNat) :
    (t.raise tickCount gameTime).tickCount = tickCount :=
  if_pos (UInt64.le_iff_toNat_le.mpr h)

theorem Timeline.gameTime_raise (t : Timeline) (tickCount : Count) (gameTime : Duration)
    (h : t.gameTime.nanos ≤ gameTime.nanos) : (t.raise tickCount gameTime).gameTime = gameTime :=
  Duration.max_eq_right h

theorem Duration.toNat_toNanoCount {d : Duration} (h : d.nanos ≤ Count.greatest) :
    d.toNanoCount.toNat = d.nanos := by
  rw [toNanoCount, Count.toNat_ofNat, Nat.min_eq_left h]

/-- The story of a world goes on with the totals of its ticks if its latest event tells no
others. -/
theorem Story.tally_cons {a : WorldId} {e : Event} {events : List Event} {t' : Timeline}
    (hstory : Story a (e :: events) t')
    (hbefore : ∀ t, Story a events t → IsTallyOf (ticksOf events) t.tickCount t.gameTime)
    (htold : ∀ d tickCount nanos, e.Tells a d → d.totals? = some (tickCount, nanos) →
      IsTallyOf (ticksOf (e :: events)) tickCount (Duration.ofNanoCount nanos)) :
    IsTallyOf (ticksOf (e :: events)) t'.tickCount t'.gameTime := by
  have hgrows : (ticksOf events).length ≤ (ticksOf (e :: events)).length ∧
      tickedNanos (ticksOf events) ≤ tickedNanos (ticksOf (e :: events)) := by
    by_cases hkind : e.kind? = some .ticked
    · rw [ticksOf_cons_of_tick hkind]
      refine ⟨Nat.le_succ _, ?_⟩
      cases htick : e.tick? with
      | none => exact Nat.le_of_eq (tickedNanos_cons_of_none htick _).symm
      | some d =>
        rw [tickedNanos_cons htick]
        exact Nat.le_add_left _ _
    · rw [ticksOf_cons_of_ne hkind]
      exact ⟨Nat.le_refl _, Nat.le_refl _⟩
  cases hstory with
  | creation htells =>
    rw [ticksOf_cons_of_ne (by rw [htells.kind]; rintro ⟨⟩)]
    exact ⟨rfl, rfl⟩
  | @next _ _ t d hstory htells =>
    obtain ⟨hcount, htime⟩ := hbefore t hstory
    cases d with
    | created d | resumed d =>
      rw [ticksOf_cons_of_ne (by rw [htells.kind]; rintro ⟨⟩)]
      exact ⟨hcount, htime⟩
    | ticked d | paused d =>
      obtain ⟨htoldCount, htoldTime⟩ := htold _ _ _ htells rfl
      have hraised := t.tickCount_raise d.tickCount d.gameTime
        (by rw [hcount, htoldCount]; exact hgrows.1)
      have hmax := t.gameTime_raise d.tickCount d.gameTime
        (by rw [htime]; exact Nat.le_trans hgrows.2 (Nat.le_of_eq htoldTime.symm))
      exact ⟨(congrArg UInt64.toNat hraised).trans htoldCount,
        (congrArg Duration.nanos hmax).trans htoldTime⟩

end WorldClock
