import WorldClock.Proofs.Manager.Broadcasts

/-!
# What a process asks about the weather

A process asks for the weather of a world on one occasion only: when the world's ticker comes to
wait for it, and then for the instant and the season that the ticker waits for
(`Manager.apply_asks`).
-/

namespace WorldClock

/-- What a call asks about the weather of a world. -/
def Call.weatherOf? (a : WorldId) : Call → Option (Utc × Season)
  | .published _ => none
  | .weather world synthetic season => if world = a then some (synthetic, season) else none

/-- What some calls ask about the weather of a world. -/
def weatherCalls (calls : List Call) (a : WorldId) : List (Utc × Season) :=
  calls.filterMap (Call.weatherOf? a)

/-- The instant and the season whose weather a ticker waits for. -/
def Phase.asked? : Phase → Option (Utc × Season)
  | .askingWeather _ synthetic season => some (synthetic, season)
  | _ => none

/-- What a ticker comes to wait for. -/
def Phase.asks (before after : Phase) : Option (Utc × Season) :=
  if before.asked?.isSome then none else after.asked?

/-- What the ticker of a world comes to wait for between two views of the world. -/
def View.asks (v v' : View) : Option (Utc × Season) :=
  match v.ticker, v'.ticker with
  | some t, some t' => t.phase.asks t'.phase
  | _, _ => none

theorem weatherCalls_cons (world : WorldId) (synthetic : Utc) (season : Season)
    (calls : List Call) (a : WorldId) :
    weatherCalls (.weather world synthetic season :: calls) a =
      (if world = a then [(synthetic, season)] else []) ++ weatherCalls calls a := by
  by_cases h : world = a <;> simp [weatherCalls, Call.weatherOf?, h]

theorem Phase.asks_self (phase : Phase) : phase.asks phase = none := by
  rw [asks]
  split
  · rfl
  · next h => rwa [Bool.not_eq_true, Option.isSome_eq_false_iff, Option.isNone_iff_eq_none] at h

theorem Phase.asks_of_after (before : Phase) {after : Phase} (h : after.asked? = none) :
    before.asks after = none := by
  rw [asks, h, ite_self]

theorem Phase.isTicking_of_asked? {phase : Phase} (h : phase.asked? ≠ none) :
    phase.isTicking = true := by
  cases phase with
  | askingWeather _ _ _ => rfl
  | _ => exact absurd rfl h

theorem Phase.asked?_restAfter (w : Wiring) (cause : TickCause) :
    (Ticker.restAfter w cause).asked? = none :=
  Ticker.restAfter_cases w cause (fun _ => rfl) (fun _ => rfl) fun _ => rfl

theorem View.asks_of_ticker_eq {v v' : View} (h : v'.ticker = v.ticker) : v.asks v' = none := by
  rw [asks, h]
  cases v.ticker with
  | none => rfl
  | some t => exact Phase.asks_self t.phase

/-! ### Tickers -/

namespace Ticker

/-- A step asks for the weather that the ticker comes to wait for. -/
def Asks (t : Ticker) (s : Surroundings) (result : Ticker × Surroundings) : Prop :=
  ∀ a, weatherCalls result.2.calls a =
    (if t.world = a then (t.phase.asks result.1.phase).toList else []) ++ weatherCalls s.calls a

variable {w : Wiring} {m : Moment} {t : Ticker} {s : Surroundings} {result : Ticker × Surroundings}

theorem asks_of_none (hphase : t.phase.asks result.1.phase = none)
    (hcalls : ∀ a, weatherCalls result.2.calls a = weatherCalls s.calls a) : t.Asks s result := by
  intro a
  rw [hphase, Option.toList_none, ite_self, List.nil_append, hcalls]

/-- A step after which the ticker waits for no weather, and which has made no call. -/
theorem asks_of_rest (hafter : result.1.phase.asked? = none)
    (hcalls : result.2.calls = s.calls) : t.Asks s result :=
  asks_of_none (Phase.asks_of_after _ hafter) fun _ => by rw [hcalls]

/-- A step with which the ticker comes to wait for the weather, and asks for it. -/
theorem asks_of_call {cause : TickCause} {synthetic : Utc} {season : Season}
    (hbefore : t.phase.asked? = none)
    (hafter : result.1.phase = .askingWeather cause synthetic season)
    (hcalls : result.2.calls = .weather t.world synthetic season :: s.calls) :
    t.Asks s result := by
  intro a
  rw [hcalls, weatherCalls_cons, hafter, Phase.asks, hbefore]
  rfl

theorem asks_refl : t.Asks s (t, s) := asks_of_none (Phase.asks_self t.phase) fun _ => rfl

theorem tick_asks (cause : TickCause) : t.Asks s (t.tick w m cause s) := by
  rw [tick]
  split
  · exact asks_of_rest (Phase.asked?_restAfter w cause) rfl
  · simp only
    split
    · exact asks_of_none (Phase.asks_of_after _ rfl) fun _ => rfl
    · exact asks_of_rest rfl rfl

theorem endCatchUp_asks (run : CatchUpRun) : t.Asks s (t.endCatchUp m run s) := by
  rw [endCatchUp]
  split
  · exact asks_of_rest rfl rfl
  · refine asks_of_rest rfl ?_
    split <;> rfl

theorem poll_asks : t.Asks s (t.poll w m s) := by
  rw [poll]
  split
  · exact asks_of_rest rfl rfl
  · exact asks_of_rest rfl rfl
  · split
    · exact tick_asks _
    · exact asks_of_rest rfl rfl
  · exact asks_of_rest rfl rfl
  · exact endCatchUp_asks _
  · split
    · exact asks_of_rest rfl rfl
    · split
      · exact tick_asks _
      · exact asks_refl
  · exact asks_refl

theorem answer_asks (r : Reply CallError) : t.Asks s (t.answer w m r s) := by
  rw [answer.eq_def]
  split
  · refine asks_of_rest rfl ?_
    cases r <;> rfl
  · refine asks_of_rest (Phase.asked?_restAfter w _) ?_
    cases r <;> rfl
  · exact asks_refl

/-- The weather is asked for once a tick is recorded. -/
theorem askWeather_asks (cause : TickCause) (gameTime : Duration) {s' : Surroundings}
    (hbefore : t.phase.asked? = none) (hcalls : s'.calls = s.calls) :
    t.Asks s (t.askWeather w cause gameTime s') := by
  rw [askWeather]
  split
  · exact asks_of_rest (Phase.asked?_restAfter w cause) hcalls
  · refine asks_of_call hbefore rfl (congrArg (List.cons _) (Eq.trans ?_ hcalls))
    split <;> rfl

theorem conclude_asks (r : Reply LogError) : t.Asks s (t.conclude w m r s) := by
  rw [conclude]
  split
  · next hphase =>
    split
    · exact asks_refl
    · exact askWeather_asks _ _ (by rw [hphase]; rfl) (settle_calls _ _ _)
  · split
    · exact asks_refl
    · exact asks_of_rest rfl (settle_calls .resumed _ _)
  · exact asks_refl

theorem file_asks : t.Asks s (t.file s) := by
  rw [file]
  split
  · exact asks_of_rest rfl rfl
  · exact asks_of_rest rfl rfl
  · exact asks_refl

theorem crash_asks (culprit : String) : t.Asks s (t.crash culprit, s) := by
  rw [crash]
  split
  · exact asks_refl
  · exact asks_of_rest rfl rfl

theorem Takes.asks {step : Ticker → Surroundings → Ticker × Surroundings} (h : Takes w m step)
    (t : Ticker) (s : Surroundings) : t.Asks s (step t s) := by
  cases h with
  | poll => exact poll_asks
  | answer r => exact answer_asks r
  | file => exact file_asks
  | conclude r => exact conclude_asks r
  | crash culprit => exact crash_asks culprit

end Ticker

/-! ### Processes -/

namespace Manager

/-- What a process has asked about the weather of a world, the latest first. -/
def weatherCallsOf (p : Manager) (a : WorldId) : List (Utc × Season) :=
  weatherCalls p.surroundings.calls a

variable {p q : Manager}

theorem asks_eq (p p' : Manager) (a : WorldId) : (p.viewOf a).asks (p'.viewOf a) =
    match p.phase? a, p'.phase? a with
    | some phase, some phase' => phase.asks phase'
    | _, _ => none := by
  simp only [View.asks, viewOf, phase?]
  cases p.tickers.get? a <;> cases p'.tickers.get? a <;> rfl

theorem Idles.asks_eq_none (h : p.Idles q) (a : WorldId) :
    (p.viewOf a).asks (q.viewOf a) = none := by
  rw [asks_eq]
  cases hafter : q.phase? a with
  | none => cases p.phase? a <;> rfl
  | some phase' =>
    by_cases hasked : phase'.asked? = none
    · cases p.phase? a with
      | none => rfl
      | some phase => exact Phase.asks_of_after phase hasked
    · rw [h.phase a phase' hafter (Phase.isTicking_of_asked? hasked)]
      exact Phase.asks_self phase'

theorem stepTicker_asks (hp : p.Coherent) {b : WorldId}
    {step : Ticker → Surroundings → Ticker × Surroundings}
    (hstep : ∀ t : Ticker, t.Asks p.surroundings (step t p.surroundings)) (a : WorldId) :
    (p.stepTicker b step).weatherCallsOf a =
      ((p.viewOf a).asks ((p.stepTicker b step).viewOf a)).toList ++ p.weatherCallsOf a := by
  cases hticker : p.tickers.get? b with
  | none =>
    simp only [stepTicker, hticker]
    rw [View.asks_of_ticker_eq rfl]
    rfl
  | some t =>
    have hcalls := hstep t a
    rw [(hp b).world_eq hticker] at hcalls
    simp only [stepTicker, hticker, weatherCallsOf]
    rw [hcalls]
    congr 1
    by_cases hne : b = a
    · subst hne
      simp only [View.asks, viewOf, hticker, WorldTable.get?_set_self, if_true]
    · have hset := WorldTable.get?_set p.tickers b a (step t p.surroundings).1
      rw [if_neg (Ne.symm hne)] at hset
      rw [if_neg hne, View.asks_of_ticker_eq hset]
      rfl

/-- What a process has asked about the weather of a world once a move is made. -/
theorem apply_asks (hp : p.Coherent) (m : Moment) (move : Move) (a : WorldId) :
    (p.apply m move).weatherCallsOf a =
      ((p.viewOf a).asks ((p.apply m move).viewOf a)).toList ++ p.weatherCallsOf a := by
  obtain hidles | ⟨world, step, htakes, heq⟩ := apply_idles_or_steps p m move
  · rw [hidles.asks_eq_none, weatherCallsOf, hidles.calls]
    rfl
  · rw [heq]
    exact stepTicker_asks hp (fun t => htakes.asks t p.surroundings) a

end Manager

end WorldClock
