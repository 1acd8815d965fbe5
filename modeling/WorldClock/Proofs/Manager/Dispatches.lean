import WorldClock.Proofs.Versions

/-!
# What a process hands to its projections

The projections of a process see an event on two occasions: when the append of an errand is
answered, and when that of a ticker is. Either way the log has the event already, and the append is
over then. Every other move leaves the projections as they are, and no answer passes an event over
that the log has (`Manager.dispatches_apply`).
-/

namespace WorldClock

/-- Someone is told what the log has said to an append. -/
def Move.isAnswer : Move → Bool
  | .conclude .answered | .concludeFor _ .answered => true
  | _ => false

theorem Filing.outcome?_of_stored {f : Filing} (h : f.verdict = some (.ok ())) :
    f.outcome? .answered = some .answered := by
  obtain ⟨e, verdict⟩ := f
  subst h
  rfl

namespace View

/-- An errand that waits for its append and is over afterwards leaves no append behind. -/
theorem Step.filing?_of_over {w : Wiring} {m : Moment} {a : WorldId} {v v' : View}
    (h : v.Step w m a v') (hc : v.Coherent w a) {errand : Errand}
    (herrand : v.errand = some errand) (hjoining : errand ≠ .stop a .joining)
    (hover : v'.errand = none) : v'.filing? = none := by
  have hticker := hc.ticker_eq_none_of_ne herrand hjoining
  cases h with
  | giveUp => exact filing?_of_idle hticker rfl
  | takeUp _ _ _ hnew | takeUpAnnounced _ _ _ hnew | enroll _ _ hnew =>
    exact (filing?_of_ticker rfl).trans (world_of_new? hnew).2.1
  | goes hsome | fileTick hsome | fileResumption hsome =>
    rw [hticker] at hsome
    cases hsome
  | _ => cases hover

end View

namespace Ticker

variable {w : Wiring} {m : Moment} {t : Ticker} {s : Surroundings}

theorem tick_projections (cause : TickCause) :
    (t.tick w m cause s).2.projections = s.projections := by
  rw [tick]
  split
  · rfl
  · simp only
    split <;> rfl

theorem endCatchUp_projections (run : CatchUpRun) :
    (t.endCatchUp m run s).2.projections = s.projections := by
  rw [endCatchUp]
  split
  · rfl
  · simp only
    split <;> rfl

theorem poll_projections : (t.poll w m s).2.projections = s.projections := by
  rw [poll]
  split
  · rfl
  · rfl
  · split
    · exact tick_projections _
    · rfl
  · rfl
  · exact endCatchUp_projections _
  · split
    · rfl
    · split
      · exact tick_projections _
      · rfl
  · rfl

theorem answer_projections (r : Reply CallError) :
    (t.answer w m r s).2.projections = s.projections := by
  rw [answer.eq_def]
  split
  · cases r <;> rfl
  · cases r <;> rfl
  · rfl

theorem file_projections : (t.file s).2.projections = s.projections := by
  rw [file]
  split <;> rfl

theorem askWeather_projections (cause : TickCause) (gameTime : Duration) :
    (t.askWeather w cause gameTime s).2.projections = s.projections := by
  rw [askWeather]
  split
  · rfl
  · simp only
    split <;> rfl

theorem filing?_askWeather (cause : TickCause) (gameTime : Duration) :
    (t.askWeather w cause gameTime s).1.filing? = none := by
  rw [askWeather]
  split
  · exact filing?_endTick w cause t
  · rfl

/-- A reply to the append of a ticker hands its event to the projections if the log has it, and ends
the append if it tells anything. -/
theorem conclude_cases (r : Reply LogError) :
    (t.conclude w m r s).2.projections = s.projections ∧
        (r = .answered → ∀ f, t.filing? = some f → f.verdict ≠ some (.ok ())) ∨
      ∃ f, t.filing? = some f ∧ f.verdict = some (.ok ()) ∧
        (t.conclude w m r s).1.filing? = none ∧
        (t.conclude w m r s).2.projections = (s.project t.world f.event).projections := by
  have hanswered {f : Filing} (hfiling : t.filing? = some f)
      (houtcome : f.outcome? r ≠ some .answered) :
      r = .answered → ∀ f, t.filing? = some f → f.verdict ≠ some (.ok ()) := by
    rintro rfl g hg hverdict
    obtain rfl := Option.some.inj (hfiling.symm.trans hg)
    exact houtcome (Filing.outcome?_of_stored hverdict)
  rw [conclude]
  split
  · next cause gameTime f hphase =>
    have hfiling : t.filing? = some f := by rw [filing?, hphase]
    split
    · next houtcome => exact .inl ⟨rfl, hanswered hfiling (by simp [houtcome])⟩
    · next r' houtcome =>
      rw [askWeather_projections]
      cases r' with
      | answered =>
        exact .inr ⟨f, hfiling, Manager.verdict_of_answered houtcome, filing?_askWeather _ _, rfl⟩
      | failed error | timedOut => exact .inl ⟨rfl, hanswered hfiling (by simp [houtcome])⟩
  · next run f hphase =>
    have hfiling : t.filing? = some f := by rw [filing?, hphase]
    split
    · next houtcome => exact .inl ⟨rfl, hanswered hfiling (by simp [houtcome])⟩
    · next r' houtcome =>
      cases r' with
      | answered => exact .inr ⟨f, hfiling, Manager.verdict_of_answered houtcome, rfl, rfl⟩
      | failed error | timedOut => exact .inl ⟨rfl, hanswered hfiling (by simp [houtcome])⟩
  · next hrecording hresuming =>
    refine .inl ⟨rfl, fun _ f hfiling => ?_⟩
    rw [filing?] at hfiling
    split at hfiling
    · next hphase => exact absurd hphase (hrecording _ _ _)
    · next hphase => exact absurd hphase (hresuming _ _)
    · cases hfiling

end Ticker

namespace Manager

def projections (p : Manager) : Option (Dispatcher ReadModel) := p.surroundings.projections

variable {p : Manager} {m : Moment}

theorem launch_projections (p : Manager) (order : SpawnOrder) (version : Count)
    (weatherSyncedAt : Duration) (plan : Option CatchUpPlan) :
    (p.launch order version weatherSyncedAt plan).projections = p.projections ∧
      (p.launch order version weatherSyncedAt plan).isBusy = false := by
  rw [launch]
  split <;> exact ⟨rfl, rfl⟩

theorem takeUp_projections (p : Manager) (order : SpawnOrder) (known : World) (version : Count) :
    (p.takeUp m order known version).projections = p.projections ∧
      (p.takeUp m order known version).isBusy = false := by
  rw [takeUp]
  split
  · exact ⟨rfl, rfl⟩
  · exact launch_projections _ _ _ _ _

theorem enroll_projections (p : Manager) (order : SpawnOrder) :
    (p.enroll m order).projections = p.projections ∧ (p.enroll m order).isBusy = false := by
  rw [enroll]
  split
  · exact ⟨rfl, rfl⟩
  · exact launch_projections _ _ _ _ _

theorem announce_projections (order : SpawnOrder) (known : World) (version : Count) :
    (p.announce m order known version).projections = p.projections := by
  rw [announce]
  split
  · rfl
  · exact (takeUp_projections p order known version).1

theorem resume_projections (p : Manager) (order : SpawnOrder) (known : World) :
    (p.resume order known).projections = p.projections := by
  rw [resume]
  split <;> rfl

theorem restoreFrom_projections (order : SpawnOrder) (history : List Event) :
    (p.restoreFrom m order history).projections = p.projections := by
  rw [restoreFrom]
  split
  · rfl
  · rfl
  · simp only
    split
    · rfl
    · exact resume_projections _ _ _

theorem pause_projections (p : Manager) (world : WorldId) (version pending : Count) :
    (p.pause m world version pending).projections = p.projections := by
  rw [pause]
  split <;> rfl

theorem beginSpawn_projections (order : SpawnOrder) :
    (p.beginSpawn order).projections = p.projections := by
  rw [beginSpawn]
  split
  · rfl
  · split
    · rfl
    · split
      · exact resume_projections _ _ _
      · rfl

theorem beginStop_projections (world : WorldId) :
    (p.beginStop world).projections = p.projections := by
  rw [beginStop]
  split <;> rfl

theorem join_projections (world : WorldId) : (p.join m world).projections = p.projections := by
  rw [join]
  split
  · rfl
  · split
    · exact pause_projections _ _ _ _
    · rfl
    · rfl

theorem read_projections (failure : Option LogError) :
    (p.read m failure).projections = p.projections := by
  rw [read]
  split
  · split
    · rfl
    · exact restoreFrom_projections _ _
  · split
    · rfl
    · exact announce_projections _ _ _
  · split
    · rfl
    · exact pause_projections _ _ _ _
  · rfl

theorem file_projections (p : Manager) : p.file.projections = p.projections := by
  rw [file]
  split <;> rfl

/-- What becomes of the projections of a process when it makes a move. -/
inductive Dispatches (p : Manager) (move : Move) (p' : Manager) : Prop where
  | nothing (hsame : p'.projections = p.projections)
    (hpending : move.isAnswer = true → ∀ b f, (p.viewOf b).filing? = some f →
      f.verdict = some (.ok ()) → (p'.viewOf b).filing? ≠ none) : Dispatches p move p'
  | stored {b : WorldId} {f : Filing} (hbefore : (p.viewOf b).filing? = some f)
    (hverdict : f.verdict = some (.ok ())) (hafter : (p'.viewOf b).filing? = none)
    (hprojects : p'.projections = (p.project b f.event).projections) : Dispatches p move p'

theorem dispatches_of_not_isAnswer {move : Move} {p' : Manager} (hanswer : move.isAnswer = false)
    (hsame : p'.projections = p.projections) : p.Dispatches move p' :=
  .nothing hsame fun h => by simp [hanswer] at h

theorem dispatches_refl (p : Manager) (move : Move) : p.Dispatches move p :=
  .nothing rfl fun _ _ _ hbefore _ => by simp [hbefore]

theorem filing?_eq (p : Manager) : p.filing? = p.errand.bind Errand.filing? := by
  rw [filing?]
  cases p.errand with
  | none => rfl
  | some errand =>
    cases errand with
    | spawn _ stage => cases stage <;> rfl
    | stop _ stage => cases stage <;> rfl
    | _ => rfl

/-- The append that an errand waits for is over when it fails, and no other append is. -/
theorem dispatches_fail {f : Filing} (hfiling : p.filing? = some f)
    (hverdict : f.verdict ≠ some (.ok ())) (move : Move) (result : Except ManagerError Unit) :
    p.Dispatches move (p.finish result) := by
  refine .nothing rfl fun _ b g hbefore hstored => ?_
  rw [viewOf_finish]
  cases hticker : (p.viewOf b).ticker with
  | some t =>
    rw [View.filing?_of_ticker hticker] at hbefore
    have hafter : ({ p.viewOf b with errand := none } : View).filing? = t.filing? :=
      View.filing?_of_ticker hticker
    simp [hafter, hbefore]
  | none =>
    cases hview : (p.viewOf b).errand with
    | none => simp [View.filing?_of_idle hticker hview] at hbefore
    | some errand =>
      obtain ⟨hsome, -⟩ := Option.filter_eq_some_iff.mp hview
      rw [View.filing?_of_errand hticker hview] at hbefore
      have hsame : p.filing? = errand.filing? := by
        rw [filing?_eq, hsome, Option.bind_some]
      obtain rfl := Option.some.inj (hfiling.symm.trans (hsame.trans hbefore))
      exact absurd hstored hverdict

theorem dispatches_conclude (hp : p.Coherent) (r : Reply LogError) :
    p.Dispatches (.conclude r) (p.conclude m r) := by
  have hacts := conclude_actsOn (m := m) hp r
  -- An errand whose append is answered is over, and so is the append.
  have hover {errand : Errand} {b : WorldId} (herrand : p.errand = some errand)
      (hworld : errand.world? = some b) {f : Filing} (hfiling : errand.filing? = some f)
      (hverdict : f.verdict = some (.ok ())) (hidle : (p.conclude m r).isBusy = false)
      (hprojects : (p.conclude m r).projections = (p.project b f.event).projections) :
      p.Dispatches (.conclude r) (p.conclude m r) := by
    have hview := errand_eq_some p herrand hworld
    have hjoining : errand ≠ .stop b .joining := by
      rintro rfl
      cases hfiling
    have hbefore : (p.viewOf b).filing? = some f :=
      (View.filing?_of_errand ((hp b).ticker_eq_none_of_ne hview hjoining) hview).trans hfiling
    have hnone := errand_eq_none_of_not_isBusy (p.conclude m r) b hidle
    refine .stored hbefore hverdict ?_ hprojects
    rw [errandWorld_eq herrand hworld] at hacts
    obtain hstays | hsteps := hacts.view
    · rw [hstays, hview] at hnone
      cases hnone
    · exact hsteps.filing?_of_over (hp b) hview hjoining hnone
  rw [conclude] at hover ⊢
  cases hfiling : p.filing? with
  | none => exact dispatches_refl p _
  | some f =>
    simp only [hfiling, Option.bind_some] at hover ⊢
    split
    · exact dispatches_refl p _
    · exact dispatches_refl p _
    · next error houtcome =>
      cases r with
      | answered =>
        refine dispatches_fail hfiling (fun hverdict => ?_) _ _
        rw [Filing.outcome?_of_stored hverdict] at houtcome
        cases houtcome
      | failed _ | timedOut => exact dispatches_of_not_isAnswer rfl rfl
    · next houtcome =>
      have hverdict := verdict_of_answered houtcome
      simp only [houtcome] at hover
      rw [filing?] at hfiling
      split
      · next order f' herrand =>
        simp only [herrand, Option.some.injEq] at hfiling hover
        obtain ⟨hprojects, hidle⟩ :=
          enroll_projections (m := m) (p.project order.world f'.event) order
        exact hover rfl rfl rfl (hfiling ▸ hverdict) hidle hprojects
      · next order known f' herrand =>
        simp only [herrand, Option.some.injEq] at hfiling hover
        obtain ⟨hprojects, hidle⟩ :=
          takeUp_projections (m := m) (p.project order.world f'.event) order known f'.event.version
        exact hover rfl rfl rfl (hfiling ▸ hverdict) hidle hprojects
      · next world f' known pending herrand =>
        simp only [herrand, Option.some.injEq] at hfiling hover
        exact hover rfl rfl rfl (hfiling ▸ hverdict) rfl rfl
      · exact dispatches_refl p _

theorem dispatches_stepTicker {move : Move} (hanswer : move.isAnswer = false) {b : WorldId}
    {step : Ticker → Surroundings → Ticker × Surroundings}
    (hstep : ∀ t : Ticker, (step t p.surroundings).2.projections = p.projections) :
    p.Dispatches move (p.stepTicker b step) := by
  refine dispatches_of_not_isAnswer hanswer ?_
  rw [stepTicker]
  split
  · rfl
  · next t _ => exact hstep t

theorem dispatches_concludeFor (hp : p.Coherent) (b : WorldId) (r : Reply LogError) :
    p.Dispatches (.concludeFor b r) (p.stepTicker b (Ticker.conclude p.wiring m r)) := by
  have hacts : p.ActsOn m b (p.stepTicker b (Ticker.conclude p.wiring m r)) :=
    stepTicker_actsOn_of_goes hp fun _ _ _ hentry hmarker => Ticker.conclude_goes hentry hmarker r
  rw [stepTicker] at hacts ⊢
  cases hticker : p.tickers.get? b with
  | none => exact dispatches_refl p _
  | some t =>
    have hview : (p.viewOf b).ticker = some t := hticker
    simp only [hticker] at hacts ⊢
    obtain ⟨hsame, hanswered⟩ | ⟨f, hfiling, hverdict, hafter, hprojects⟩ :=
      Ticker.conclude_cases (w := p.wiring) (m := m) (t := t) (s := p.surroundings) r
    · refine .nothing hsame fun hanswer c f hbefore hverdict => ?_
      by_cases hne : c = b
      · subst hne
        have hreply : r = .answered := by
          cases r with
          | answered => rfl
          | failed _ | timedOut => cases hanswer
        have hfiling := (View.filing?_of_ticker hview).symm.trans hbefore
        exact absurd hverdict (hanswered hreply f hfiling)
      · rw [hacts.others c hne, hbefore]
        exact Option.some_ne_none f
    · refine .stored ((View.filing?_of_ticker hview).trans hfiling) hverdict ?_ ?_
      · refine (View.filing?_of_ticker ?_).trans hafter
        exact WorldTable.get?_set_self _ _ _
      · rw [(hp b).world_eq hview] at hprojects
        exact hprojects

/-- A move of its own hands one stored event to the projections of a process, or none. -/
theorem dispatches_apply (hp : p.Coherent) {move : Move} (hown : move.isOwn = true) :
    p.Dispatches move (p.apply m move) := by
  cases move with
  | spawn order =>
    refine dispatches_of_not_isAnswer rfl ?_
    rw [apply]
    split
    · rfl
    · exact beginSpawn_projections order
  | stop world =>
    refine dispatches_of_not_isAnswer rfl ?_
    rw [apply]
    split
    · rfl
    · exact beginStop_projections world
  | join =>
    refine dispatches_of_not_isAnswer rfl ?_
    rw [apply]
    split
    · exact join_projections _
    · rfl
  | read failure => exact dispatches_of_not_isAnswer rfl (read_projections failure)
  | file => exact dispatches_of_not_isAnswer rfl (file_projections p)
  | conclude reply => exact dispatches_conclude hp reply
  | poll world => exact dispatches_stepTicker rfl fun _ => Ticker.poll_projections
  | answer world reply => exact dispatches_stepTicker rfl fun _ => Ticker.answer_projections reply
  | fileFor world => exact dispatches_stepTicker rfl fun _ => Ticker.file_projections
  | concludeFor world reply => exact dispatches_concludeFor hp world reply
  | crash world culprit =>
    exact @dispatches_stepTicker p _ rfl world (fun t s => (t.crash culprit, s)) fun _ => rfl
  | update world change => cases hown

end Manager

end WorldClock
