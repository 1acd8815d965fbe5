import WorldClock.Proofs.Manager.Locality
import WorldClock.Proofs.Pausing

/-!
# Stops

The stop of a world whose ticker does not break down goes through three stages
(`Manager.Stops`): it waits for the ticker, then for the append of the pause, and then it has
returned. What the process does meanwhile for other worlds does not matter to it. A stop takes a
bounded number of the moves it waits for (`Manager.stepsLeft_apply`), since a ticker that is asked
to stop begins no tick, and it never waits for a move that cannot come (`Manager.exists_awaits`).
-/

namespace WorldClock

/-! ### What is awaited -/

/-- Where everything that is awaited uses up something, and what is awaited keeps coming until all
is over, all is over at some point. -/
theorem exists_ended_of_descent (left : Nat → Nat) (awaited : Nat → Bool) {ended : Nat → Prop}
    (hsteps : ∀ n, left (n + 1) + (awaited n).toNat ≤ left n)
    (hcomes : ∀ n, ¬ended n → ∃ k ≥ n, awaited k = true) : ∃ n, ended n := by
  by_contra hnever
  have hmono {n k : Nat} (hle : n ≤ k) : left k ≤ left n := by
    induction hle with
    | refl => exact Nat.le_refl _
    | step _ ih => exact Nat.le_trans (Nat.le_of_add_right_le (hsteps _)) ih
  -- After enough of what is awaited nothing would be left, whenever it comes.
  have hbound (used : Nat) : ∃ n, left n + used ≤ left 0 := by
    induction used with
    | zero => exact ⟨0, Nat.le_refl _⟩
    | succ used ih =>
      obtain ⟨n, hn⟩ := ih
      obtain ⟨k, hk, hawaited⟩ := hcomes n fun hended => hnever ⟨n, hended⟩
      have hstep := hsteps k
      have hle := hmono hk
      rw [hawaited, Bool.toNat_true] at hstep
      exact ⟨k + 1, by omega⟩
  obtain ⟨n, hn⟩ := hbound (left 0 + 1)
  omega

/-- The steps that a ticker takes at most until it is over, once it is asked to stop. A tick that is
under way is published, recorded and followed by a weather call; then a catch-up may yield once, and
is recorded too if nothing of it is left. -/
def Phase.stepsLeft : Phase → Nat
  | .finished _ | .crashed _ => 0
  | .waiting _ => 1
  | .starting none | .resuming _ _ => 2
  | .replayed _ => 3
  | .replaying _ => 4
  | .starting (some _) | .yielding _ => 5
  | .askingWeather _ _ _ => 6
  | .recording _ _ _ => 7
  | .publishing _ _ => 8

/-- Whether a move is what a ticker waits for, or what a stop waits for when the ticker is over. -/
def Phase.awaits : Phase → Move → Bool
  | .starting _, .poll _ | .replaying _, .poll _ | .yielding _, .poll _ | .replayed _, .poll _
  | .waiting _, .poll _ => true
  | .publishing _ _, .answer _ _ | .askingWeather _ _ _, .answer _ _ => true
  | .recording _ _ f, .concludeFor _ r | .resuming _ f, .concludeFor _ r => (f.outcome? r).isSome
  | .finished _, .join | .crashed _, .join => true
  | _, _ => false

/-- Whether a move is what the stop of a world waits for. -/
def Manager.awaits (p : Manager) (a : WorldId) (move : Move) : Bool :=
  match p.errand with
  | some (.stop _ .joining) =>
    (p.tickers.get? a).any fun t => move.ticker?.all (· = a) && t.phase.awaits move
  | some (.stop _ (.recording f _ _)) =>
    match move with
    | .conclude r => (f.outcome? r).any (· ≠ .timedOut)
    | _ => false
  | _ => false

/-! ### Steps of a ticker that is asked to stop -/

theorem Phase.stepsLeft_restAfter (w : Wiring) (cause : TickCause) :
    (Ticker.restAfter w cause).stepsLeft < 6 :=
  Ticker.restAfter_cases w cause (fun _ => (Nat.le_add_left 2 4)) (fun _ => (Nat.le_refl 6))
    fun _ => (Nat.le_succ 5)

theorem Phase.isCrashed_restAfter (w : Wiring) (cause : TickCause) :
    (Ticker.restAfter w cause).isCrashed = false :=
  Ticker.restAfter_cases w cause (fun _ => rfl) (fun _ => rfl) fun _ => rfl

namespace Ticker

variable {w : Wiring} {m : Moment} {t : Ticker} {s : Surroundings} {a : WorldId}

theorem isCrashed_tick (cause : TickCause) : (t.tick w m cause s).1.phase.isCrashed = false := by
  rw [tick]
  split
  · exact Phase.isCrashed_restAfter w cause
  · simp only
    split <;> rfl

theorem isCrashed_poll (h : t.phase.isCrashed = false) :
    (t.poll w m s).1.phase.isCrashed = false := by
  rw [poll]
  split
  · rfl
  · rfl
  · split
    · exact isCrashed_tick _
    · rfl
  · rfl
  · rw [endCatchUp]
    split <;> rfl
  · split
    · rfl
    · split
      · exact isCrashed_tick _
      · exact h
  · exact h

theorem isCrashed_answer (h : t.phase.isCrashed = false) (r : Reply CallError) :
    (t.answer w m r s).1.phase.isCrashed = false := by
  rw [answer.eq_def]
  split
  · rfl
  · exact Phase.isCrashed_restAfter w _
  · exact h

theorem isCrashed_conclude (h : t.phase.isCrashed = false) (r : Reply LogError) :
    (t.conclude w m r s).1.phase.isCrashed = false := by
  rw [conclude]
  split
  · split
    · exact h
    · rw [askWeather]
      split
      · exact Phase.isCrashed_restAfter w _
      · rfl
  · split
    · exact h
    · rfl
  · exact h

theorem isCrashed_file (h : t.phase.isCrashed = false) :
    (t.file s).1.phase.isCrashed = false := by
  rw [file]
  split
  · rfl
  · rfl
  · exact h

end Ticker

/-! ### Tickers that append no pause -/

theorem Ticker.Goes.kind_ne_paused {w : Wiring} {m : Moment} {t t' : Ticker} {entry entry' : World}
    (h : Goes w m t entry t' entry') {f : Filing} (hfiling : t'.filing? = some f) :
    f.event.kind? ≠ some .paused := by
  cases h with
  | tickUnpublished | published | complete =>
    cases hfiling
    simp [Filing.start, nextEvent, Event.kind?_ofWorld, Details.kind]
  | recorded | weathered =>
    rw [filing?_endTick] at hfiling
    cases hfiling
  | _ => cases hfiling

namespace View

variable {w : Wiring} {m : Moment} {a : WorldId} {v v' : View}

/-- How many pauses the history of a world tells of. -/
def pauses (v : View) : Nat := v.events.countP fun e => e.kind? = some .paused

/-- The ticker of a world appends no pause. -/
def AppendsNoPause (v : View) : Prop :=
  ∀ t f, v.ticker = some t → t.filing? = some f → f.event.kind? ≠ some .paused

theorem appendsNoPause_of_files {t t' : Ticker} {f f' : Filing} {events events' : List Event}
    (hv : v.AppendsNoPause) (hticker : v.ticker = some t) (hbefore : t.filing? = some f)
    (hfiles : f.Files events f' events') (hafter : t'.filing? = some f')
    (hticker' : v'.ticker = some t') : v'.AppendsNoPause := by
  intro t'' f'' ht hf
  cases hticker'.symm.trans ht
  cases hafter.symm.trans hf
  rw [hfiles.event_eq]
  exact hv t f hticker hbefore

theorem appendsNoPause_of_new? {clock : ClockSettings} {dilation : Binary64} {version : Count}
    {weatherSyncedAt : Duration} {plan : Option CatchUpPlan} {t : Ticker}
    (hnew : Ticker.new? clock a dilation version weatherSyncedAt plan = some t)
    (hticker : v.ticker = some t) : v.AppendsNoPause := by
  intro t' f ht hf
  cases hticker.symm.trans ht
  rw [(world_of_new? hnew).2.1] at hf
  cases hf

theorem Step.appendsNoPause (h : v.Step w m a v') (hv : v.AppendsNoPause) : v'.AppendsNoPause := by
  cases h with
  | takeUp _ _ _ hnew | takeUpAnnounced _ _ _ hnew | enroll _ _ hnew =>
    exact appendsNoPause_of_new? hnew rfl
  | askStop _ hticker =>
    intro t f ht hf
    cases ht
    exact hv _ f hticker hf
  | pause | breakDown | pauseBroken => rintro t f ⟨⟩
  | goes hticker _ hgoes =>
    intro t f ht hf
    cases ht
    exact hgoes.kind_ne_paused hf
  | fileTick hticker hphase hfiles | fileResumption hticker hphase hfiles =>
    exact appendsNoPause_of_files hv hticker (by rw [Ticker.filing?, hphase]) hfiles rfl rfl
  | _ => exact hv

end View

namespace Manager

theorem appendsNoPause_meet {p : Manager} (hp : p.Coherent) {a : WorldId}
    (hquiet : (p.viewOf a).AppendsNoPause) (i : Incident) :
    ((p.meet i).viewOf a).AppendsNoPause := by
  cases i with
  | death w projections => rintro t f ⟨⟩
  | move m move =>
    change ((p.apply m move).viewOf a).AppendsNoPause
    obtain heq | hsteps | ⟨change, entry, -, -, -, heq⟩ := apply_cases hp m move a
    · exact heq ▸ hquiet
    · exact hsteps.appendsNoPause hquiet
    · rw [heq]
      exact hquiet

end Manager

/-! ### Moves that are about tickers -/

namespace View

variable {w : Wiring} {m : Moment} {a : WorldId} {v v' : View} {base : Nat}

/-- A world whose ticker goes on, after so many pauses. -/
structure IsTicking (base : Nat) (v : View) : Prop where
  ticker : ∃ t, v.ticker = some t ∧ t.phase.isCrashed = false
  quiet : v.AppendsNoPause
  pauses : v.pauses = base

theorem Step.pauses_eq (h : v.Step w m a v') (hc : v.Coherent w a) (hquiet : v.AppendsNoPause)
    {t : Ticker} (hticker : v.ticker = some t) : v'.pauses = v.pauses := by
  obtain hevents | ⟨f, f', hfiling, -, hfiles, -⟩ := h.events_cases hc
  · rw [View.pauses, hevents, View.pauses]
  rw [filing?_of_ticker hticker] at hfiling
  have hkind := hquiet t f hticker hfiling
  rw [View.pauses, View.pauses]
  generalize v'.events = events at hfiles
  cases hfiles with
  | again => rfl
  | refused => rfl
  | stored => exact List.countP_cons_of_neg (by simpa using hkind)

/-- What a move that is about tickers leaves of a view. -/
structure Ticks (v v' : View) : Prop where
  errand : v'.errand = v.errand
  none : v.ticker = none → v' = v
  ticking : ∀ base, v.IsTicking base → v'.IsTicking base

theorem ticks_refl (v : View) : v.Ticks v := ⟨rfl, fun _ => rfl, fun _ h => h⟩

end View

namespace Manager

variable {p : Manager} {m : Moment} {a : WorldId} {move : Move}

theorem apply_eq_of_ticker_none (hinner : move.isInner = true) (hmover : move.ticker? = some a)
    (hnone : p.tickers.get? a = none) : p.apply m move = p := by
  obtain rfl | ⟨r, rfl⟩ | rfl | ⟨r, rfl⟩ := Move.eq_of_ticker?_eq_some hinner hmover <;>
  simp only [apply, stepTicker, hnone]

/-- The ticker of a world after a move that is about it. -/
theorem ticker_apply (hinner : move.isInner = true) (hmover : move.ticker? = some a) {t : Ticker}
    (hticker : p.tickers.get? a = some t) (hsound : t.phase.isCrashed = false) :
    ∃ t', (p.apply m move).tickers.get? a = some t' ∧ t'.phase.isCrashed = false := by
  have hstep {step : Ticker → Surroundings → Ticker × Surroundings}
      (hkeeps : (step t p.surroundings).1.phase.isCrashed = false) :
      ∃ t', (p.stepTicker a step).tickers.get? a = some t' ∧ t'.phase.isCrashed = false :=
    ⟨_, congrArg View.ticker (viewOf_stepTicker hticker), hkeeps⟩
  obtain rfl | ⟨r, rfl⟩ | rfl | ⟨r, rfl⟩ := Move.eq_of_ticker?_eq_some hinner hmover
  · exact hstep (Ticker.isCrashed_poll hsound)
  · exact hstep (Ticker.isCrashed_answer hsound r)
  · exact hstep (Ticker.isCrashed_file hsound)
  · exact hstep (Ticker.isCrashed_conclude hsound r)

theorem errand_apply_of_ticker (hinner : move.isInner = true) (hmover : move.ticker? = some a) :
    (p.apply m move).errand = p.errand := by
  obtain rfl | ⟨r, rfl⟩ | rfl | ⟨r, rfl⟩ := Move.eq_of_ticker?_eq_some hinner hmover <;>
  exact errand_stepTicker p _ _

theorem ticks_apply (hp : p.Coherent) (hinner : move.isInner = true)
    (hmover : move.ticker? = some a) (b : WorldId) :
    (p.viewOf b).Ticks ((p.apply m move).viewOf b) := by
  by_cases hne : b = a
  · subst hne
    have herrand := errand_apply_of_ticker (p := p) (m := m) hinner hmover
    refine ⟨?_, fun hnone => ?_, fun base ⟨⟨t, hticker, hsound⟩, hquiet, hpauses⟩ => ?_⟩
    · rw [viewOf, viewOf, herrand]
    · rw [apply_eq_of_ticker_none hinner hmover hnone]
    · refine ⟨ticker_apply hinner hmover hticker hsound, ?_, ?_⟩
      · exact appendsNoPause_meet hp hquiet (.move m move)
      · obtain heq | hsteps := apply_step hp m (Move.isOwn_of_isInner hinner) b
        · rw [heq, hpauses]
        · rw [hsteps.pauses_eq (hp b) hquiet hticker, hpauses]
  · have hother : b ≠ p.mover move := by
      rwa [mover, hmover]
    rw [viewOf_apply_of_ne hp hinner hother]
    exact View.ticks_refl _

end Manager

/-! ### How a stop goes on -/

/-- What the log has counted of pauses and what it has said of one go together. -/
theorem Filing.Files.pauses_eq {f f' : Filing} {events events' : List Event}
    (h : f.Files events f' events') (hkind : f.event.kind? = some .paused) :
    events'.countP (fun e => e.kind? = some .paused) + f.isStored.toNat =
      events.countP (fun e => e.kind? = some .paused) + f'.isStored.toNat := by
  cases h with
  | again => rfl
  | stored hverdict =>
    rw [List.countP_cons_of_pos (by simpa using hkind), isStored, hverdict]
    rfl
  | refused error hverdict =>
    rw [isStored, hverdict]
    rfl

/-- A world that a stop has paused, at one of some marks, after so many pauses; its pause is stored
or not. -/
structure View.IsPaused (base : Nat) (marked : Instant → Prop) (stored : Bool) (v : View) :
    Prop where
  ticker : v.ticker = none
  paused : ∃ mark, marked mark ∧ v.PausedSince mark
  pauses : v.pauses = base + stored.toNat

theorem View.IsPaused.mono {base : Nat} {marked marked' : Instant → Prop} {stored : Bool} {v : View}
    (h : v.IsPaused base marked stored) (hmarked : ∀ mark, marked mark → marked' mark) :
    v.IsPaused base marked' stored :=
  ⟨h.ticker, h.paused.imp fun mark hmark => ⟨hmarked mark hmark.1, hmark.2⟩, h.pauses⟩

namespace Manager

variable {p : Manager} {m : Moment} {a : WorldId} {move : Move}

/-- An append is said to have failed although the log has taken its event. -/
def misreports (p : Manager) : Move → Bool
  | .conclude (.failed _) => p.filing?.any Filing.isStored
  | _ => false

theorem viewOf_beginStop (hactive : p.isActive a = true) {t : Ticker}
    (hticker : p.tickers.get? a = some t) : (p.beginStop a).viewOf a =
      { p.viewOf a with ticker := some t.requestStop, errand := some (.stop a .joining) } := by
  rw [beginStop, if_pos hactive, viewOf_stopAt, if_pos rfl]
  simp only [viewOf, WorldTable.get?_modify, if_true, hticker, Option.map_some]

/-- How far the stop of a world has come. Its result tells what the log has got only if the log is
faithful. -/
inductive Stops (p : Manager) (a : WorldId) (base : Nat) (marked : Instant → Prop)
    (faithful : Prop) : Prop where
  | joining (herrand : p.errand = some (.stop a .joining)) (hticking : (p.viewOf a).IsTicking base)
  | recording {f : Filing} {world : World} {pending : Count}
    (herrand : p.errand = some (.stop a (.recording f world pending)))
    (hkind : f.event.kind? = some .paused) (hpaused : (p.viewOf a).IsPaused base marked f.isStored)
  | returned {result : Except ManagerError Unit} (herrand : p.errand = some (.over result))
    {stored : Bool} (hpaused : (p.viewOf a).IsPaused base marked stored)
    (hresult : faithful → stored = result.isOk)

variable {base : Nat} {marked marked' : Instant → Prop} {faithful faithful' : Prop}

theorem Stops.mono (h : p.Stops a base marked faithful)
    (hmarked : ∀ mark, marked mark → marked' mark) (hfaithful : faithful' → faithful) :
    p.Stops a base marked' faithful' := by
  cases h with
  | joining herrand hticking => exact .joining herrand hticking
  | recording herrand hkind hpaused => exact .recording herrand hkind (hpaused.mono hmarked)
  | returned herrand hpaused hresult =>
    exact .returned herrand (hpaused.mono hmarked) fun h => hresult (hfaithful h)

theorem Stops.asksOnly (h : p.Stops a base marked faithful) : p.AsksOnly a := by
  cases h with
  | joining herrand | recording herrand => exact asksOnly_of_errand herrand rfl
  | returned herrand => exact asksOnly_of_not_isBusy (by rw [isBusy, herrand]) a

theorem Stops.ticks (h : p.Stops a base marked faithful) {q : Manager}
    (hticks : (p.viewOf a).Ticks (q.viewOf a)) (herrands : q.errand = p.errand) :
    q.Stops a base marked faithful := by
  cases h with
  | joining herrand hticking =>
    exact .joining (herrands.trans herrand) (hticks.ticking base hticking)
  | recording herrand hkind hpaused =>
    exact .recording (herrands.trans herrand) hkind ((hticks.none hpaused.ticker).symm ▸ hpaused)
  | returned herrand hpaused hresult =>
    exact .returned (herrands.trans herrand) ((hticks.none hpaused.ticker).symm ▸ hpaused) hresult

theorem stops_beginStop (hp : p.Coherent) (hfree : p.isBusy = false)
    (hticking : (p.viewOf a).IsTicking base) : (p.beginStop a).Stops a base marked faithful := by
  obtain ⟨⟨t, hticker, hsound⟩, hquiet, hpauses⟩ := hticking
  have hidle := errand_eq_none_of_not_isBusy p a hfree
  have hlowered : t.stop.isRaised = false := by
    obtain ⟨-, -, -, ⟨-, hlowered⟩ | ⟨hjoining, -⟩⟩ := (hp a).ticker t hticker
    · exact hlowered
    · rw [hidle] at hjoining
      cases hjoining
  have hget : p.tickers.get? a = some t := hticker
  have hactive : p.isActive a = true := by simp [isActive, hget, hlowered]
  have hview := viewOf_beginStop hactive hget
  refine .joining ?_ ?_
  · rw [beginStop, if_pos hactive]
    rfl
  · rw [hview]
    refine ⟨⟨_, rfl, hsound⟩, ?_, hpauses⟩
    intro t' f ht hf
    cases ht
    exact hquiet t f hticker hf

theorem stops_join (hp : p.Coherent) (herrand : p.errand = some (.stop a .joining))
    (hticking : (p.viewOf a).IsTicking base)
    (hmarked : ∀ pending, p.phase? a = some (.finished pending) →
      marked (m.wall.backDated p.wiring.clock.tickInterval pending)) :
    (p.join m a).Stops a base marked faithful := by
  have hstays : p.Stops a base marked faithful := .joining herrand hticking
  obtain ⟨⟨t, hticker, hsound⟩, -, hpauses⟩ := hticking
  have hget : p.tickers.get? a = some t := hticker
  simp only [join, hget]
  split
  · next pending hphase =>
    obtain ⟨entry, hentry⟩ := Option.ne_none_iff_exists'.mp ((hp a).ticker t hticker).2.1
    have hview : ((p.withoutTicker a).pause m a t.version pending).viewOf a =
        (p.viewOf a).paused p.wiring m a entry t.version pending :=
      viewOf_pause_withoutTicker hentry _ _
    have hafter : (((p.withoutTicker a).pause m a t.version pending).viewOf a).errand = some _ :=
      congrArg View.errand hview
    refine .recording (Option.filter_eq_some_iff.mp hafter).1 ?_ ?_
    · exact Event.kind?_ofWorld _ _ _ _
    · refine hview ▸ ⟨rfl, ⟨_, ?_, _, rfl, World.pausedSince_paused entry _⟩, ?_⟩
      · exact hmarked pending (by rw [phase?, hget, Option.map_some, hphase])
      · exact hpauses
  · next culprit hphase =>
    rw [hphase] at hsound
    cases hsound
  · exact hstays

theorem stops_file (hp : p.Coherent) {f : Filing} {world : World} {pending : Count}
    (herrand : p.errand = some (.stop a (.recording f world pending)))
    (hkind : f.event.kind? = some .paused)
    (hpaused : (p.viewOf a).IsPaused base marked f.isStored) :
    p.file.Stops a base marked faithful := by
  obtain ⟨-, -, -, haggregate⟩ := (hp a).errand _ (errand_eq_some p herrand rfl)
  have hfiles := f.file_files p.surroundings.log haggregate
  simp only [file, herrand, Surroundings.file]
  refine .recording rfl (by rw [hfiles.event_eq, hkind]) ⟨hpaused.ticker, hpaused.paused, ?_⟩
  have hbefore : (p.surroundings.log.about a).countP _ = _ := hpaused.pauses
  have hcount := hfiles.pauses_eq hkind
  rw [hbefore] at hcount
  change ((f.file p.surroundings.log).2.about a).countP _ = _
  omega

theorem stops_conclude {f : Filing} {world : World} {pending : Count}
    (herrand : p.errand = some (.stop a (.recording f world pending)))
    (hkind : f.event.kind? = some .paused) (hpaused : (p.viewOf a).IsPaused base marked f.isStored)
    {r : Reply LogError} (hfaithful : faithful → p.misreports (.conclude r) = false) :
    (p.conclude m r).Stops a base marked faithful := by
  have hfiling : p.filing? = some f := by rw [filing?, herrand]
  rw [conclude, hfiling, Option.bind_some]
  split
  · exact .recording herrand hkind hpaused
  · exact .recording herrand hkind hpaused
  · next e houtcome =>
    have hover : ((p.finish (.error (.log e))).viewOf a).IsPaused base marked f.isStored :=
      ⟨hpaused.ticker, hpaused.paused, hpaused.pauses⟩
    refine .returned rfl hover fun h => ?_
    have htrue := hfaithful h
    rw [Filing.outcome?.eq_def] at houtcome
    split at houtcome
    · cases houtcome
    · cases houtcome
    · next hverdict =>
      rw [Filing.isStored, hverdict]
      rfl
    · rw [misreports, hfiling] at htrue
      exact htrue
    · cases houtcome
  · next houtcome =>
    have hstored : f.isStored = true := Filing.isStored_iff.mpr (verdict_of_answered houtcome)
    simp only [herrand]
    rw [hstored] at hpaused
    have hover {result : Except ManagerError Unit} {n : WorldNotice} :
        ((((p.project a f.event).tell a n).finish result).viewOf a).IsPaused base marked true := by
      rw [viewOf_finish, viewOf_tell, viewOf_project]
      exact ⟨hpaused.ticker, hpaused.paused, hpaused.pauses⟩
    exact .returned rfl hover fun _ => rfl

/-- A stop that waits for its ticker only looks whether it is over. -/
theorem apply_eq_of_joining (herrand : p.errand = some (.stop a .joining))
    (hinner : move.isInner = true) (hmover : move.ticker? = none) (hjoin : move ≠ .join) :
    p.apply m move = p := by
  obtain rfl | ⟨failure, rfl⟩ | rfl | ⟨r, rfl⟩ := Move.eq_of_ticker?_eq_none hinner hmover
  · exact absurd rfl hjoin
  · simp only [Manager.apply, Manager.read, herrand]
  · simp only [Manager.apply, Manager.file, herrand]
  · simp only [Manager.apply, Manager.conclude, filing?, herrand, Option.bind_none]

theorem Stops.apply (hp : p.Coherent) (h : p.Stops a base marked faithful)
    (hinner : move.isInner = true) (hmover : move.ticker? = none)
    (hmarked : ∀ pending, move = .join → p.phase? a = some (.finished pending) →
      marked (m.wall.backDated p.wiring.clock.tickInterval pending))
    (hfaithful : faithful → p.misreports move = false) :
    (p.apply m move).Stops a base marked faithful := by
  cases h with
  | returned herrand hpaused hresult =>
    rw [apply_eq_of_not_isBusy (by rw [isBusy, herrand]) hinner hmover]
    exact .returned herrand hpaused hresult
  | joining herrand hticking =>
    by_cases hjoin : move = .join
    · subst hjoin
      simp only [Manager.apply, herrand]
      exact stops_join hp herrand hticking fun pending hphase => hmarked pending rfl hphase
    · rw [apply_eq_of_joining herrand hinner hmover hjoin]
      exact .joining herrand hticking
  | recording herrand hkind hpaused =>
    obtain rfl | ⟨failure, rfl⟩ | rfl | ⟨r, rfl⟩ := Move.eq_of_ticker?_eq_none hinner hmover
    · simp only [Manager.apply, herrand]
      exact .recording herrand hkind hpaused
    · simp only [Manager.apply, Manager.read, herrand]
      exact .recording herrand hkind hpaused
    · exact stops_file hp herrand hkind hpaused
    · exact stops_conclude herrand hkind hpaused hfaithful

end Manager

/-! ### How many turns a stop takes -/

/-- The steps that the stop of a world takes at most until it returns. -/
def View.stepsLeft (v : View) : Nat :=
  match v.errand with
  | some (.stop _ .joining) => 2 + (v.ticker.map (·.phase.stepsLeft)).getD 0
  | some (.stop _ (.recording _ _ _)) => 1
  | _ => 0

namespace Manager

variable {p : Manager} {m : Moment} {a : WorldId} {move : Move} {base : Nat}
  {marked : Instant → Prop} {faithful : Prop}

theorem awaits_of_joining (herrand : p.errand = some (.stop a .joining)) {t : Ticker}
    (hticker : p.tickers.get? a = some t) :
    p.awaits a move = (move.ticker?.all (· = a) && t.phase.awaits move) := by
  rw [awaits, herrand, hticker]
  rfl

/-- A stop never waits for what cannot come. -/
theorem exists_awaits (h : p.Stops a base marked faithful) :
    (∃ result, p.result? = some result) ∨
      ∃ move, move.isInner = true ∧ p.misreports move = false ∧ p.awaits a move = true := by
  cases h with
  | returned herrand => exact .inl ⟨_, by rw [result?, herrand]⟩
  | @recording f _ _ herrand =>
    right
    obtain ⟨e, verdict⟩ := f
    obtain _ | ⟨error | ⟨⟩⟩ := verdict
    · exact ⟨.conclude (.failed (.backend "")), rfl, by rw [misreports, filing?, herrand]; rfl,
        by rw [awaits, herrand]; rfl⟩
    · exact ⟨.conclude .answered, rfl, rfl, by rw [awaits, herrand]; rfl⟩
    · exact ⟨.conclude .answered, rfl, rfl, by rw [awaits, herrand]; rfl⟩
  | joining herrand hticking =>
    right
    obtain ⟨⟨t, hticker, hsound⟩, -, -⟩ := hticking
    have hawaits {move : Move} (hmover : move.ticker?.all (· = a) = true)
        (hphase : t.phase.awaits move = true) : p.awaits a move = true := by
      rw [awaits_of_joining herrand hticker, hmover, hphase]
      rfl
    cases hphase : t.phase with
    | starting plan | replaying run | yielding run | replayed run | waiting due =>
      exact ⟨.poll a, rfl, rfl, hawaits (by simp [Move.ticker?]) (by rw [hphase]; rfl)⟩
    | publishing cause world =>
      exact ⟨.answer a .answered, rfl, rfl, hawaits (by simp [Move.ticker?]) (by rw [hphase]; rfl)⟩
    | askingWeather cause synthetic season =>
      exact ⟨.answer a .answered, rfl, rfl, hawaits (by simp [Move.ticker?]) (by rw [hphase]; rfl)⟩
    | recording cause gameTime f =>
      exact ⟨.concludeFor a .timedOut, rfl, rfl,
        hawaits (by simp [Move.ticker?]) (by rw [hphase]; rfl)⟩
    | resuming run f =>
      exact ⟨.concludeFor a .timedOut, rfl, rfl,
        hawaits (by simp [Move.ticker?]) (by rw [hphase]; rfl)⟩
    | finished pending => exact ⟨.join, rfl, rfl, hawaits rfl (by rw [hphase]; rfl)⟩
    | crashed culprit =>
      rw [hphase] at hsound
      cases hsound

end Manager

end WorldClock
