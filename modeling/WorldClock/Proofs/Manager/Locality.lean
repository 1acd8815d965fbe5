import WorldClock.Proofs.Manager.Errands

/-!
# What a world sees of its process

What a move does to the view of the world that it is about hangs on this view and the wiring alone,
whatever else the process holds (`Manager.viewOf_apply_congr`). The views of all other worlds stay
as they are (`Manager.viewOf_apply_of_ne`).
-/

namespace WorldClock

namespace Ticker

/-- A ticker has done the same in two surroundings. -/
structure Agrees (world : WorldId) (result result' : Ticker × Surroundings) : Prop where
  ticker : result'.1 = result.1
  surroundings : result.2.Alike world result'.2

variable {w : Wiring} {m : Moment} {t : Ticker} {s s' : Surroundings}

theorem agrees_tick (h : s.Alike t.world s') (cause : TickCause) :
    Agrees t.world (t.tick w m cause s) (t.tick w m cause s') := by
  rw [tick, tick]
  obtain ⟨e, hs, hs'⟩ | ⟨new, hs, hs'⟩ :=
    Registry.update_congr h.entry (World.ticked t.delta m.wall)
  · simp only [hs, hs']
    exact ⟨rfl, h.entry, h.events⟩
  · simp only [hs, hs']
    obtain ⟨hentry, hevents⟩ := h.set new
    split <;> exact ⟨rfl, hentry, hevents⟩

theorem agrees_endCatchUp (h : s.Alike t.world s') (run : CatchUpRun) :
    Agrees t.world (t.endCatchUp m run s) (t.endCatchUp m run s') := by
  rw [endCatchUp, endCatchUp]
  split
  · exact ⟨rfl, h.entry, h.events⟩
  · obtain ⟨e, hs, hs'⟩ | ⟨new, hs, hs'⟩ := Registry.update_congr h.entry markRunning
    · simp only [hs, hs']
      exact ⟨rfl, h.entry, h.events⟩
    · simp only [hs, hs']
      exact ⟨rfl, h.set new⟩

theorem agrees_poll (h : s.Alike t.world s') :
    Agrees t.world (t.poll w m s) (t.poll w m s') := by
  rw [poll, poll]
  split
  · exact ⟨rfl, h⟩
  · exact ⟨rfl, h.entry, h.events⟩
  · split
    · exact agrees_tick h _
    · exact ⟨rfl, h⟩
  · exact ⟨rfl, h⟩
  · exact agrees_endCatchUp h _
  · split
    · exact ⟨rfl, h⟩
    · split
      · exact agrees_tick h _
      · exact ⟨rfl, h⟩
  · exact ⟨rfl, h⟩

theorem agrees_answer (h : s.Alike t.world s') (r : Reply CallError) :
    Agrees t.world (t.answer w m r s) (t.answer w m r s') := by
  rw [answer.eq_def, answer.eq_def]
  split
  · cases r <;> exact ⟨rfl, h.entry, h.events⟩
  · cases r <;> exact ⟨rfl, h.entry, h.events⟩
  · exact ⟨rfl, h⟩

theorem agrees_askWeather (h : s.Alike t.world s') (cause : TickCause) (gameTime : Duration) :
    Agrees t.world (t.askWeather w cause gameTime s) (t.askWeather w cause gameTime s') := by
  rw [askWeather, askWeather]
  split
  · exact ⟨rfl, h⟩
  · obtain ⟨e, hs, hs'⟩ | ⟨new, hs, hs'⟩ := Registry.update_congr h.entry
      fun world => { world with weatherSyncedAt := gameTime }
    · simp only [hs, hs']
      exact ⟨rfl, h.entry, h.events⟩
    · simp only [hs, hs']
      obtain ⟨hentry, hevents⟩ := h.set new
      exact ⟨rfl, hentry, hevents⟩

theorem alike_settle (h : s.Alike t.world s') (kind : EventKind) (e : Event) (r : Reply LogError) :
    (t.settle w kind e r s).Alike t.world (t.settle w kind e r s') where
  entry := by rw [settle_registry, settle_registry, h.entry]
  events := by rw [settle_log, settle_log, h.events]

theorem agrees_conclude (h : s.Alike t.world s') (r : Reply LogError) :
    Agrees t.world (t.conclude w m r s) (t.conclude w m r s') := by
  rw [conclude, conclude]
  split
  · split
    · exact ⟨rfl, h⟩
    · exact agrees_askWeather (alike_settle h _ _ _) _ _
  · split
    · exact ⟨rfl, h⟩
    · obtain ⟨hentry, hevents⟩ := alike_settle (w := w) h .resumed _ _
      exact ⟨rfl, hentry, hevents⟩
  · exact ⟨rfl, h⟩

theorem agrees_file (h : s.Alike t.world s')
    (hfiling : ∀ f, t.filing? = some f → f.event.aggregateId = t.world.text) :
    Agrees t.world (t.file s) (t.file s') := by
  rw [file, file]
  split
  · next cause gameTime f hphase =>
    obtain ⟨hfile, habout⟩ := Filing.file_congr (hfiling f (by rw [filing?, hphase])) h.events
    simp only [Surroundings.file, hfile]
    exact ⟨rfl, h.entry, habout⟩
  · next run f hphase =>
    obtain ⟨hfile, habout⟩ := Filing.file_congr (hfiling f (by rw [filing?, hphase])) h.events
    simp only [Surroundings.file, hfile]
    exact ⟨rfl, h.entry, habout⟩
  · exact ⟨rfl, h⟩

end Ticker

/-- The world whose ticker a move is about. -/
def Move.ticker? : Move → Option WorldId
  | .poll world | .answer world _ | .fileFor world | .concludeFor world _ | .crash world _ =>
    some world
  | _ => none

/-- A move that goes on with what is under way, and breaks nothing. -/
def Move.isInner : Move → Bool
  | .join | .read _ | .file | .conclude _ | .poll _ | .answer _ _ | .fileFor _
  | .concludeFor _ _ => true
  | .spawn _ | .stop _ | .crash _ _ | .update _ _ => false

theorem Move.isOwn_of_isInner {move : Move} (h : move.isInner = true) : move.isOwn = true := by
  cases move with
  | update world change => cases h
  | _ => rfl

theorem Move.eq_of_ticker?_eq_some {move : Move} {a : WorldId} (hinner : move.isInner = true)
    (hmover : move.ticker? = some a) : move = .poll a ∨ (∃ r, move = .answer a r) ∨
      move = .fileFor a ∨ ∃ r, move = .concludeFor a r := by
  cases move with
  | poll _ | answer _ _ | fileFor _ | concludeFor _ _ =>
    obtain rfl := Option.some.inj hmover
    simp
  | join | read _ | file | conclude _ => cases hmover
  | spawn _ | stop _ | crash _ _ | update _ _ => cases hinner

theorem Move.eq_of_ticker?_eq_none {move : Move} (hinner : move.isInner = true)
    (hmover : move.ticker? = none) : move = .join ∨ (∃ failure, move = .read failure) ∨
      move = .file ∨ ∃ r, move = .conclude r := by
  cases move with
  | join | read _ | file | conclude _ => simp
  | poll _ | answer _ _ | fileFor _ | concludeFor _ _ => cases hmover
  | spawn _ | stop _ | crash _ _ | update _ _ => cases hinner

namespace Manager

/-- The world that a move is about. -/
def mover (p : Manager) (move : Move) : WorldId := move.ticker?.getD p.errandWorld

variable {p q : Manager} {m : Moment} {a : WorldId} {move : Move}

theorem actsOn_mover (hp : p.Coherent) (hinner : move.isInner = true) :
    p.ActsOn m (p.mover move) (p.apply m move) := by
  cases move with
  | join =>
    rw [apply]
    split
    · next world herrand =>
      have hmover : p.mover .join = world := errandWorld_eq herrand rfl
      rw [hmover]
      exact join_actsOn hp herrand
    · exact actsOn_refl p m _
  | read failure => exact read_actsOn hp failure
  | file => exact file_actsOn hp
  | conclude reply => exact conclude_actsOn hp reply
  | poll world =>
    exact stepTicker_actsOn_of_goes hp fun _ _ _ hentry hmarker => Ticker.poll_goes hentry hmarker
  | answer world reply =>
    exact stepTicker_actsOn_of_goes hp fun _ _ _ hentry _ => Ticker.answer_goes hentry reply
  | fileFor world => exact fileFor_actsOn hp
  | concludeFor world reply =>
    exact stepTicker_actsOn_of_goes hp fun _ _ _ hentry hmarker =>
      Ticker.conclude_goes hentry hmarker reply
  | spawn _ | stop _ | crash _ _ | update _ _ => cases hinner

theorem viewOf_apply_of_ne (hp : p.Coherent) (hinner : move.isInner = true)
    (hne : a ≠ p.mover move) : (p.apply m move).viewOf a = p.viewOf a :=
  (actsOn_mover hp hinner).others a hne

theorem not_isBusy_of_errand (h : ∀ b, (p.viewOf b).errand = none) : p.isBusy = false := by
  rw [isBusy]
  split
  · next order stage herrand =>
    have hsome : (p.viewOf order.world).errand = _ := errand_eq_some p herrand rfl
    rw [h] at hsome
    cases hsome
  · next world stage herrand =>
    have hsome : (p.viewOf world).errand = _ := errand_eq_some p herrand rfl
    rw [h] at hsome
    cases hsome
  · rfl
  · rfl

theorem not_isBusy_of_asksOnly (hasks : p.AsksOnly a) (hnone : (p.viewOf a).errand = none) :
    p.isBusy = false := by
  refine not_isBusy_of_errand fun b => ?_
  by_cases hne : b = a
  · rw [hne, hnone]
  · exact hasks b hne

/-- Nothing goes on with an errand when none is under way. -/
theorem apply_eq_of_not_isBusy (hidle : p.isBusy = false) (hinner : move.isInner = true)
    (hticker : move.ticker? = none) : p.apply m move = p := by
  have herrand : p.errand = none ∨ ∃ result, p.errand = some (.over result) := by
    rw [isBusy] at hidle
    split at hidle
    · cases hidle
    · cases hidle
    · next result herrand => exact .inr ⟨result, herrand⟩
    · next herrand => exact .inl herrand
  obtain rfl | ⟨failure, rfl⟩ | rfl | ⟨r, rfl⟩ := Move.eq_of_ticker?_eq_none hinner hticker <;>
  obtain herrand | ⟨result, herrand⟩ := herrand <;>
  simp only [apply, read, file, conclude, filing?, herrand, Option.bind_none]

theorem errandWorld_of_asksOnly (hasks : p.AsksOnly a) (hbusy : p.isBusy = true) :
    p.errandWorld = a := by
  have hworld {errand : Errand} {world : WorldId} (herrand : p.errand = some errand)
      (hself : errand.world? = some world) : p.errandWorld = a := by
    rw [errandWorld_eq herrand hself]
    by_contra hne
    have hsome := errand_eq_some p herrand hself
    rw [hasks world hne] at hsome
    cases hsome
  rw [isBusy] at hbusy
  split at hbusy
  · next herrand => exact hworld herrand rfl
  · next herrand => exact hworld herrand rfl
  · cases hbusy
  · cases hbusy

/-- What is about one world, or about the only errand there can be, leaves all other worlds as they
are. -/
theorem viewOf_apply_of_asksOnly (hp : p.Coherent) (hinner : move.isInner = true)
    (hasks : p.AsksOnly a) (hmover : move.ticker?.getD a = a) (hne : b ≠ a) :
    (p.apply m move).viewOf b = p.viewOf b := by
  cases hticker : move.ticker? with
  | some c =>
    rw [hticker, Option.getD_some] at hmover
    exact viewOf_apply_of_ne hp hinner (by rwa [mover, hticker, Option.getD_some, hmover])
  | none =>
    cases hbusy : p.isBusy with
    | true =>
      refine viewOf_apply_of_ne hp hinner ?_
      rwa [mover, hticker, Option.getD_none, errandWorld_of_asksOnly hasks hbusy]
    | false => rw [apply_eq_of_not_isBusy hbusy hinner hticker]

/-! ### Tickers -/

theorem viewOf_stepTicker {step : Ticker → Surroundings → Ticker × Surroundings} {t : Ticker}
    (hticker : p.tickers.get? a = some t) : (p.stepTicker a step).viewOf a =
      { p.viewOf a with
        entry := (step t p.surroundings).2.registry.get? a
        ticker := some (step t p.surroundings).1
        events := (step t p.surroundings).2.log.about a } := by
  simp only [stepTicker, hticker, viewOf, WorldTable.get?_set_self]

theorem alike_of_viewOf_eq (hview : q.viewOf a = p.viewOf a) :
    p.surroundings.Alike a q.surroundings :=
  ⟨congrArg View.entry hview, congrArg View.events hview⟩

theorem viewOf_stepTicker_congr (hview : q.viewOf a = p.viewOf a)
    {step : Ticker → Surroundings → Ticker × Surroundings}
    (hstep : ∀ t, p.tickers.get? a = some t →
      Ticker.Agrees a (step t p.surroundings) (step t q.surroundings)) :
    (q.stepTicker a step).viewOf a = (p.stepTicker a step).viewOf a := by
  have htickers : q.tickers.get? a = p.tickers.get? a := congrArg View.ticker hview
  cases hticker : p.tickers.get? a with
  | none =>
    rw [hticker] at htickers
    simp only [stepTicker, hticker, htickers]
    exact hview
  | some t =>
    obtain ⟨hsame, halike⟩ := hstep t hticker
    rw [viewOf_stepTicker hticker, viewOf_stepTicker (htickers.trans hticker), hsame, halike.entry,
      halike.events, hview]

/-! ### Errands -/

theorem errand_eq_of_view {errand : Errand} (herrand : (p.viewOf a).errand = some errand) :
    p.errand = some errand ∧ p.errand.bind Errand.world? = some a := by
  obtain ⟨hsome, hworld⟩ := Option.filter_eq_some_iff.mp herrand
  exact ⟨hsome, by rw [hsome, Option.bind_some, of_decide_eq_true hworld]⟩

theorem matches_of_view (hwiring : q.wiring = p.wiring) (hview : q.viewOf a = p.viewOf a)
    {errand : Errand} (herrand : (p.viewOf a).errand = some errand) : Matches a p q where
  toAlike := alike_of_view hwiring hview
  errand := by
    have herrand' : (q.viewOf a).errand = some errand := by rw [hview, herrand]
    rw [(errand_eq_of_view herrand).1, (errand_eq_of_view herrand').1]

/-- The event that an errand waits for is of the errand's world. -/
theorem aggregateId_of_errand (hp : p.Coherent) {errand : Errand}
    (herrand : (p.viewOf a).errand = some errand) :
    ∀ f, p.filing? = some f → f.event.aggregateId = a.text := by
  have hsupports := (hp a).errand errand herrand
  intro f hfiling
  rw [filing?, (errand_eq_of_view herrand).1] at hfiling
  split at hfiling
  · next hsame =>
    cases hsame
    cases hfiling
    exact hsupports.2.2.2.2
  · next hsame =>
    cases hsame
    cases hfiling
    exact hsupports.2.2.2.2
  · next hsame =>
    cases hsame
    cases hfiling
    exact hsupports.2.2.2
  · cases hfiling

/-- An errand goes on in two processes that hold the same of its world. -/
theorem Matches.apply (h : Matches a p q) (hp : p.Coherent) {errand : Errand}
    (herrand : (p.viewOf a).errand = some errand) (hinner : move.isInner = true)
    (hticker : move.ticker? = none) : Matches a (p.apply m move) (q.apply m move) := by
  have habout := (errand_eq_of_view herrand).2
  obtain rfl | ⟨failure, rfl⟩ | rfl | ⟨r, rfl⟩ := Move.eq_of_ticker?_eq_none hinner hticker
  · rw [Manager.apply, Manager.apply, h.errand]
    split
    · next world hjoining =>
      obtain rfl : world = a := by simpa [hjoining, Errand.world?] using habout
      exact h.join
    · exact h
  · exact h.read habout failure
  · exact h.file (aggregateId_of_errand hp herrand)
  · exact h.conclude habout r

/-- What becomes of the view of a world by a move that is about it does not hang on what else the
process holds. -/
theorem viewOf_apply_congr (hp : p.Coherent) (hwiring : q.wiring = p.wiring)
    (hview : q.viewOf a = p.viewOf a) (hinner : move.isInner = true)
    (habout : move.ticker? = some a ∨ move.ticker? = none ∧ p.AsksOnly a ∧ q.AsksOnly a) :
    (q.apply m move).viewOf a = (p.apply m move).viewOf a := by
  have halike := alike_of_viewOf_eq hview
  obtain hticker | ⟨hticker, hasks, hasks'⟩ := habout
  · have hworld {t : Ticker} (ht : p.tickers.get? a = some t) : t.world = a := (hp a).world_eq ht
    obtain rfl | ⟨r, rfl⟩ | rfl | ⟨r, rfl⟩ := Move.eq_of_ticker?_eq_some hinner hticker
    · rw [apply, apply, hwiring]
      exact viewOf_stepTicker_congr hview fun t ht =>
        hworld ht ▸ Ticker.agrees_poll ((hworld ht).symm ▸ halike)
    · rw [apply, apply, hwiring]
      exact viewOf_stepTicker_congr hview fun t ht =>
        hworld ht ▸ Ticker.agrees_answer ((hworld ht).symm ▸ halike) r
    · refine viewOf_stepTicker_congr hview fun t ht => ?_
      have hfiling := ((hp a).ticker t ht).2.2.1
      exact hworld ht ▸ Ticker.agrees_file ((hworld ht).symm ▸ halike)
        fun f hf => (hworld ht).symm ▸ hfiling f hf
    · rw [apply, apply, hwiring]
      exact viewOf_stepTicker_congr hview fun t ht =>
        hworld ht ▸ Ticker.agrees_conclude ((hworld ht).symm ▸ halike) r
  · have herrands : (q.viewOf a).errand = (p.viewOf a).errand := congrArg View.errand hview
    cases herrand : (p.viewOf a).errand with
    | none =>
      have hidle := not_isBusy_of_asksOnly hasks herrand
      have hidle' := not_isBusy_of_asksOnly hasks' (herrands.trans herrand)
      rw [apply_eq_of_not_isBusy hidle hinner hticker, apply_eq_of_not_isBusy hidle' hinner hticker,
        hview]
    | some errand =>
      exact ((matches_of_view hwiring hview herrand).apply hp herrand hinner hticker).viewOf_eq

end Manager

end WorldClock
