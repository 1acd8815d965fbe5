import WorldClock.Proofs.CatchUp
import WorldClock.Proofs.Manager.Courses

/-!
# Chains of catch-ups

Watching a run gives one `Replay` for each time a world was resumed: what was planned, how many of
the planned ticks were made, and when the world was stopped again. A stop moves the mark of the
pause back by what is pending, and the next plan counts whole tick intervals from there, so
no planned tick is lost or made twice however often a catch-up is interrupted
(`Manager.replays_add_up`). Nothing here depends on the log: the pauses may be stored or not.
-/

namespace WorldClock

/-- What was seen of a world between two of its pauses. -/
structure Replay where
  resumedAt : Instant
  planned : Count
  /-- Planned ticks made. -/
  caughtUp : Nat
  /-- Ticks made after the catch-up. -/
  steady : Nat
  ticksBefore : Count
  ticksAfter : Count
  stoppedAt : Option Instant
  brokeDown : Bool
deriving DecidableEq

namespace Replay

def pending (r : Replay) : Nat := r.planned.toNat - r.caughtUp

def start (now : Instant) (phase : Phase) (ticks : Count) : Replay where
  resumedAt := now
  planned :=
    match phase with
    | .starting (some plan) => plan.units
    | _ => 0
  caughtUp := 0
  steady := 0
  ticksBefore := ticks
  ticksAfter := ticks
  stoppedAt := none
  brokeDown := false

def goOn (before after : Phase) (ticks : Count) (r : Replay) : Replay :=
  { r with
    caughtUp := if before.beginsOwedTick after then r.caughtUp + 1 else r.caughtUp
    steady := if before.beginsTick after then r.steady + 1 else r.steady
    ticksAfter := ticks
    brokeDown := r.brokeDown || after.isCrashed }

/-- The replays of a world, the latest first, after its view has changed. -/
def watch (m : Moment) (before after : View) (replays : List Replay) : List Replay :=
  match before.ticker, after.ticker, after.entry, replays with
  | none, some t, some entry, replays => start m.wall t.phase entry.tickCount :: replays
  | some t, some t', some entry, r :: replays =>
    r.goOn t.phase t'.phase entry.tickCount :: replays
  | some _, none, _, r :: replays => { r with stoppedAt := some m.wall } :: replays
  | _, _, _, replays => replays

end Replay

/-- Whether a move leaves the registry's entry of a world to the process. -/
def Move.spares (a : WorldId) : Move → Bool
  | .update world _ => decide (world ≠ a)
  | _ => true

/-- The replays of a world in a run, the latest first, after those seen before. -/
def Manager.replays (p : Manager) (a : WorldId) (seen : List Replay) :
    List (Moment × Move) → List Replay
  | [] => seen
  | (m, move) :: moves =>
    (p.apply m move).replays a
      (Replay.watch m (p.viewOf a) ((p.apply m move).viewOf a) seen) moves

namespace Replay

/-! ### One replay -/

structure IsSound (r : Replay) : Prop where
  caughtUp_le : r.caughtUp ≤ r.planned.toNat
  caughtUp_eq : 0 < r.steady → r.caughtUp = r.planned.toNat
  ticksAfter_eq :
    r.ticksAfter.toNat = min (r.ticksBefore.toNat + r.caughtUp + r.steady) Count.greatest

/-- A replay under way fits the phase of its ticker and the ticks of its world. -/
structure Fits (r : Replay) (phase : Phase) (ticks : Count) : Prop where
  isSound : r.IsSound
  unbroken : phase.isCrashed = false
  owed : r.caughtUp + phase.owed = r.planned.toNat
  ticks : r.ticksAfter = ticks
  stoppedAt : r.stoppedAt = none

variable {w : Wiring} {m : Moment} {r : Replay} {t t' : Ticker} {entry entry' : World}

theorem fits_start (now : Instant) (plan : CatchUpPlan) (ticks : Count) :
    (start now (.starting (some plan)) ticks).Fits (.starting (some plan)) ticks where
  isSound := by
    have hticks := ticks.toNat_le_greatest
    refine ⟨Nat.zero_le _, fun hsteady => absurd hsteady (Nat.lt_irrefl 0), ?_⟩
    change ticks.toNat = min ticks.toNat Count.greatest
    omega
  unbroken := rfl
  owed := Nat.zero_add _
  ticks := rfl
  stoppedAt := rfl

/-- A step that is no tick changes nothing that is counted. -/
theorem Fits.go {phase phase' : Phase} {ticks ticks' : Count} (h : r.Fits phase ticks)
    (hsound : phase'.isCrashed = false) (howed : phase'.owed = phase.owed) (hticks : ticks' = ticks)
    (hmissed : phase.beginsOwedTick phase' = false) (hsteady : phase.beginsTick phase' = false) :
    (r.goOn phase phase' ticks').Fits phase' ticks' := by
  have hgoOn : r.goOn phase phase' ticks' =
      { r with brokeDown := r.brokeDown || phase'.isCrashed } := by
    simp [goOn, hmissed, hsteady, hticks, h.ticks]
  rw [hgoOn]
  exact ⟨⟨h.isSound.caughtUp_le, h.isSound.caughtUp_eq, h.isSound.ticksAfter_eq⟩, hsound,
    howed ▸ h.owed, h.ticks.trans hticks.symm, h.stoppedAt⟩

theorem toNat_next_of_eq_min {c : Count} {n : Nat} (h : c.toNat = min n Count.greatest) :
    c.next.toNat = min (n + 1) Count.greatest := by
  rw [Count.toNat_next, h]
  generalize Count.greatest = greatest
  omega

/-- A tick is one of those that are owed, or comes when none is owed any more. -/
theorem Fits.tick {cause : TickCause} {phase' : Phase} (h : r.Fits t.phase entry.tickCount)
    (hbegins : t.Begins w m cause) (hsound : phase'.isCrashed = false)
    (hmissed : phase'.isOwedTick = cause.isCatchUp)
    (hsteady : phase'.isSteadyTick = !cause.isCatchUp) (howed : phase'.owed = cause.remaining)
    (hticks : entry'.tickCount = entry.tickCount.next) :
    (r.goOn t.phase phase' entry'.tickCount).Fits phase' entry'.tickCount := by
  have hcount : entry'.tickCount.toNat =
      min (r.ticksBefore.toNat + r.caughtUp + r.steady + 1) Count.greatest := by
    rw [hticks]
    exact toNat_next_of_eq_min (h.ticks ▸ h.isSound.ticksAfter_eq)
  have hpending := h.owed
  have hdone := h.isSound.caughtUp_eq
  cases hbegins with
  | @owed run hphase hmore hstop =>
    -- One more is made and one less is owed.
    have hlt : run.applied.toNat < run.plan.units.toNat := UInt64.lt_iff_toNat_lt.mp hmore
    rw [hphase, Phase.owed] at hpending
    have hgoOn : r.goOn t.phase phase' entry'.tickCount =
        { r with
          caughtUp := r.caughtUp + 1
          ticksAfter := entry'.tickCount
          brokeDown := r.brokeDown || phase'.isCrashed } := by
      rw [hphase, goOn]
      simp [Phase.beginsOwedTick, Phase.isReplaying, hmissed, TickCause.isCatchUp, Phase.beginsTick,
        Phase.isWaiting]
    rw [hgoOn]
    refine ⟨⟨?_, ?_, ?_⟩, hsound, ?_, rfl, h.stoppedAt⟩
    · change r.caughtUp + 1 ≤ r.planned.toNat
      omega
    · intro hpos
      have := hdone hpos
      omega
    · rw [hcount]
      congr 1
      change _ = r.ticksBefore.toNat + (r.caughtUp + 1) + r.steady
      omega
    · rw [howed, TickCause.remaining]
      change r.caughtUp + 1 + _ = r.planned.toNat
      omega
  | @due due hphase hstop hdue =>
    -- A steady loop owes nothing, so the catch-up before it was made in full.
    have hnone : t.phase.owed = 0 := by rw [hphase]; rfl
    rw [hnone, Nat.add_zero] at hpending
    have hall : r.caughtUp = r.planned.toNat := hpending
    have hgoOn : r.goOn t.phase phase' entry'.tickCount =
        { r with
          steady := r.steady + 1
          ticksAfter := entry'.tickCount
          brokeDown := r.brokeDown || phase'.isCrashed } := by
      rw [hphase, goOn]
      simp [Phase.beginsOwedTick, Phase.isReplaying, hsteady, TickCause.isCatchUp, Phase.beginsTick,
        Phase.isWaiting]
    rw [hgoOn]
    refine ⟨⟨h.isSound.caughtUp_le, fun _ => hall, ?_⟩, hsound, ?_, rfl, h.stoppedAt⟩
    · exact hcount
    · rw [howed, TickCause.remaining, Nat.add_zero]
      exact hall

theorem beginsTick_self (phase : Phase) : phase.beginsTick phase = false := by
  cases phase <;> rfl

theorem beginsOwedTick_self (phase : Phase) : phase.beginsOwedTick phase = false := by
  cases phase <;> rfl

/-- A ticker that does not break down keeps to what is owed. -/
theorem Fits.goes (h : r.Fits t.phase entry.tickCount) (hgoes : t.Goes w m entry t' entry')
    (hsound : t'.phase.isCrashed = false) :
    (r.goOn t.phase t'.phase entry'.tickCount).Fits t'.phase entry'.tickCount := by
  cases hgoes with
  | begin hphase | resumed hphase =>
    exact h.go hsound (by rw [hphase]; rfl) rfl (by rw [hphase]; rfl) (by rw [hphase]; rfl)
  | beginReplay hphase =>
    refine h.go hsound ?_ rfl (by rw [hphase]; rfl) (by rw [hphase]; rfl)
    rw [hphase]
    exact Nat.sub_zero _
  | tick hbegins | tickUnpublished hbegins => exact h.tick hbegins hsound rfl rfl rfl rfl
  | published hphase | asked hphase =>
    exact h.go hsound (by rw [hphase]; rfl) rfl (by rw [hphase]; rfl) (by rw [hphase]; rfl)
  | recorded hphase | weathered hphase =>
    refine h.go hsound ?_ rfl (by rw [hphase]; rfl) (by rw [hphase]; rfl)
    rw [hphase]
    exact Ticker.owed_restAfter w _
  | goOn hphase | endReplay hphase =>
    exact h.go hsound (by rw [hphase]; rfl) rfl (by rw [hphase]; rfl) (by rw [hphase]; rfl)
  | interrupt hphase hpending =>
    refine h.go hsound ?_ rfl (by rw [hphase]; rfl) (by rw [hphase]; rfl)
    rw [hphase]
    exact Count.toNat_sub _ _
  | @complete run hphase hpending =>
    refine h.go hsound ?_ ?_ (by rw [hphase]; rfl) (by rw [hphase]; rfl)
    · have hzero := Count.toNat_sub run.plan.units run.applied
      rw [← CatchUpRun.pending, hpending] at hzero
      rw [hphase]
      exact hzero
    · obtain heq | ⟨-, heq⟩ := World.markRunning_eq entry <;> rw [heq]
  | halt hphase =>
    exact h.go hsound (by rw [hphase]; rfl) rfl (by rw [hphase]; rfl) (by rw [hphase]; rfl)
  | crash culprit => cases hsound

end Replay

/-! ### All replays of a world -/

namespace Replay

/-- The mark of a world that stands still after these replays. -/
def markAfter (interval : Duration) (pausedAt : Instant) : List Replay → Option Instant
  | [] => some pausedAt
  | r :: _ => r.stoppedAt.map fun stoppedAt => stoppedAt.backDated interval (Count.ofNat r.pending)

def lastTicks (ticks : Count) : List Replay → Count
  | [] => ticks
  | r :: _ => r.ticksAfter

/-- Each replay starts where the one before it has stopped. -/
def Chained (interval : Duration) (pausedAt : Instant) (ticks : Count) : List Replay → Prop
  | [] => True
  | r :: replays =>
    r.IsSound ∧ r.ticksBefore = lastTicks ticks replays ∧
    (∃ mark, markAfter interval pausedAt replays = some mark ∧
      r.planned = (CatchUpPlan.between mark r.resumedAt interval).units) ∧
    Chained interval pausedAt ticks replays

theorem chained_goOn {interval : Duration} {pausedAt : Instant} {ticks : Count} {r r' : Replay}
    {replays : List Replay} (h : Chained interval pausedAt ticks (r :: replays))
    (hsound : r'.IsSound) (hplanned : r'.planned = r.planned)
    (hresumed : r'.resumedAt = r.resumedAt) (hticks : r'.ticksBefore = r.ticksBefore) :
    Chained interval pausedAt ticks (r' :: replays) := by
  obtain ⟨-, hbefore, hmark, hrest⟩ := h
  refine ⟨hsound, hticks.trans hbefore, ?_, hrest⟩
  rw [hplanned, hresumed]
  exact hmark

end Replay

def Errand.known? : Errand → Option World
  | .spawn _ (.readingVersion known) | .spawn _ (.announcing known _) => some known
  | _ => none

namespace View

/-- What the replays of a world say of it while no ticker of it has broken down. -/
structure Accounts (v : View) (interval : Duration) (pausedAt : Instant) (ticks : Count)
    (replays : List Replay) : Prop where
  entry : ∃ entry, v.entry = some entry ∧ entry.tickCount = Replay.lastTicks ticks replays ∧
    (v.ticker = none → entry.status = .paused ∧
      entry.pausedAt = Replay.markAfter interval pausedAt replays)
  ticker : ∀ t entry, v.ticker = some t → v.entry = some entry →
    ∃ r rest, replays = r :: rest ∧ r.Fits t.phase entry.tickCount
  known : ∀ errand known, v.errand = some errand → errand.known? = some known →
    v.entry = some known
  unbroken : ∀ world, v.errand ≠ some (.stop world .readingVersion)
  chained : Replay.Chained interval pausedAt ticks replays

variable {w : Wiring} {m : Moment} {a : WorldId} {v v' : View} {interval : Duration}
  {pausedAt : Instant} {ticks : Count} {replays : List Replay}

theorem watch_idle (hticker : v.ticker = none) (hticker' : v'.ticker = none) :
    Replay.watch m v v' replays = replays := by
  simp [Replay.watch, hticker, hticker']

theorem watch_go {t t' : Ticker} {entry : World} {r : Replay} (hticker : v.ticker = some t)
    (hticker' : v'.ticker = some t') (hentry : v'.entry = some entry) :
    Replay.watch m v v' (r :: replays) =
      r.goOn t.phase t'.phase entry.tickCount :: replays := by
  simp [Replay.watch, hticker, hticker', hentry]

/-- A step while no ticker of the world runs. -/
theorem Accounts.idle (h : v.Accounts interval pausedAt ticks replays) (hticker : v.ticker = none)
    (hticker' : v'.ticker = none) (hentry : v'.entry = v.entry)
    (hknown : ∀ errand known, v'.errand = some errand → errand.known? = some known →
      v.entry = some known)
    (hunbroken : ∀ world, v'.errand ≠ some (.stop world .readingVersion)) :
    v'.Accounts interval pausedAt ticks (Replay.watch m v v' replays) := by
  rw [watch_idle hticker hticker']
  obtain ⟨entry, hsome, hticks, hidle⟩ := h.entry
  refine ⟨⟨entry, hentry.trans hsome, hticks, fun _ => hidle hticker⟩, fun t _ ht => ?_,
    fun errand known herrand hk => hentry.trans (hknown errand known herrand hk), hunbroken,
    h.chained⟩
  rw [hticker'] at ht
  cases ht

/-- A step of the ticker, or of its append, while no ticker breaks down. -/
theorem Accounts.go (h : v.Accounts interval pausedAt ticks replays) {t t' : Ticker}
    {entry entry' : World} (hticker : v.ticker = some t) (hentry : v.entry = some entry)
    (hticker' : v'.ticker = some t') (hentry' : v'.entry = some entry')
    (hknown : ∀ errand, v'.errand = some errand → errand.known? = none)
    (hunbroken : ∀ world, v'.errand ≠ some (.stop world .readingVersion))
    (hfits : ∀ r : Replay, r.Fits t.phase entry.tickCount →
      (r.goOn t.phase t'.phase entry'.tickCount).Fits t'.phase entry'.tickCount) :
    v'.Accounts interval pausedAt ticks (Replay.watch m v v' replays) := by
  obtain ⟨r, rest, rfl, hr⟩ := h.ticker t entry hticker hentry
  rw [watch_go hticker hticker' hentry']
  have hgoes := hfits r hr
  refine ⟨⟨entry', hentry', hgoes.ticks.symm, fun hnone => ?_⟩, ?_, fun errand known he hk => ?_,
    hunbroken, Replay.chained_goOn h.chained hgoes.isSound rfl rfl rfl⟩
  · rw [hticker'] at hnone
    cases hnone
  · intro t'' entry'' ht he
    rw [hticker'] at ht
    rw [hentry'] at he
    cases ht
    cases he
    exact ⟨_, rest, rfl, hgoes⟩
  · rw [hknown errand he] at hk
    cases hk

theorem Accounts.takeUp (h : v.Accounts interval pausedAt ticks replays)
    (hinterval : w.clock.tickInterval = interval) (hticker : v.ticker = none)
    {order : SpawnOrder} {known entry : World} {t : Ticker} {errand : Errand}
    (herrand : v.errand = some errand) (hknown : errand.known? = some known)
    (hentry : v.entry = some entry) (hmarker : entry.markerFits = true) {version : Count}
    (hnew : Ticker.new? w.clock a order.dilation version entry.weatherSyncedAt
      (known.planAt w.clock.tickInterval m.wall) = some t) :
    (v.takenUp w m order known entry t).Accounts interval pausedAt ticks
      (Replay.watch m v (v.takenUp w m order known entry t) replays) := by
  obtain ⟨entry₀, hsome, hticks, hidle⟩ := h.entry
  obtain ⟨hstatus, hmark⟩ := hidle hticker
  -- The errand knows the entry as the registry has it, so the plan counts from its mark.
  have hsame := h.known errand known herrand hknown
  rw [hsome] at hsame hentry
  cases hsame
  cases hentry
  obtain ⟨mark, hsomeMark⟩ : ∃ mark, known.pausedAt = some mark := by
    rw [World.markerFits, hstatus] at hmarker
    exact Option.isSome_iff_exists.mp (by simpa using hmarker)
  have hplan : known.planAt w.clock.tickInterval m.wall =
      some (CatchUpPlan.between mark m.wall interval) := by
    simp only [World.planAt, hstatus, hsomeMark, hinterval]
  rw [hplan] at hnew
  obtain ⟨delta, -, rfl⟩ := Option.map_eq_some_iff.mp hnew
  have hwatch : ∀ t, Replay.watch m v (v.takenUp w m order known known t) replays =
      Replay.start m.wall t.phase known.tickCount :: replays := by
    intro t
    simp [Replay.watch, hticker, takenUp, Manager.resumed]
  rw [hwatch]
  have hfits := Replay.fits_start m.wall (CatchUpPlan.between mark m.wall interval) known.tickCount
  refine ⟨⟨_, rfl, rfl, ?_⟩, ?_, ?_, ?_, hfits.isSound, hticks, ⟨mark, ?_, rfl⟩, h.chained⟩
  · intro hnone
    cases hnone
  · intro t entry ht he
    cases ht
    cases he
    exact ⟨_, replays, rfl, hfits⟩
  · intro errand known hnone
    cases hnone
  · intro world hnone
    cases hnone
  · rw [← hmark, hsomeMark]

theorem Accounts.pause (h : v.Accounts interval pausedAt ticks replays)
    (hinterval : w.clock.tickInterval = interval) {t : Ticker} {pending : Count} {entry : World}
    (hticker : v.ticker = some t) (hphase : t.phase = .finished pending)
    (hentry : v.entry = some entry) (version : Count) :
    (v.paused w m a entry version pending).Accounts interval pausedAt ticks
      (Replay.watch m v (v.paused w m a entry version pending) replays) := by
  obtain ⟨r, rest, rfl, hr⟩ := h.ticker t entry hticker hentry
  have hwatch : Replay.watch m v (v.paused w m a entry version pending) (r :: rest) =
      { r with stoppedAt := some m.wall } :: rest := by
    simp [Replay.watch, hticker, paused]
  have hpending : pending = Count.ofNat r.pending := by
    have howed := hr.owed
    rw [hphase, Phase.owed] at howed
    rw [← Count.ofNat_toNat pending, Replay.pending]
    congr 1
    omega
  rw [hwatch]
  refine ⟨⟨_, rfl, hr.ticks.symm, fun _ => ⟨rfl, ?_⟩⟩, ?_, ?_, ?_, Replay.chained_goOn h.chained
    ⟨hr.isSound.caughtUp_le, hr.isSound.caughtUp_eq, hr.isSound.ticksAfter_eq⟩ rfl rfl rfl⟩
  · change some (m.wall.backDated w.clock.tickInterval pending) = _
    rw [hinterval, hpending]
    rfl
  · intro t entry hnone
    cases hnone
  · intro errand known herrand hknown
    cases herrand
    cases hknown
  · intro world hnone
    cases hnone

/-- A step keeps the account of a world, unless its ticker breaks down. -/
theorem Step.accounts (hinterval : w.clock.tickInterval = interval) (hc : v.Coherent w a)
    (h : v.Accounts interval pausedAt ticks replays) (hsteps : v.Step w m a v')
    (hunbroken : ∀ r ∈ Replay.watch m v v' replays, r.brokeDown = false) :
    v'.Accounts interval pausedAt ticks (Replay.watch m v v' replays) := by
  obtain ⟨entry₀, hsome, -⟩ := h.entry
  cases hsteps with
  | askKnown hworld herrand hticker hentry haccepted hstatus =>
    refine h.idle hticker hticker rfl ?_ ?_
    · intro errand known he hknown
      cases he
      cases hknown
      exact hentry
    · intro world he
      cases he
  | askUnknown hworld herrand hticker hentry haccepted =>
    rw [hsome] at hentry
    cases hentry
  | create herrand | restore herrand =>
    obtain ⟨-, -, -, hentry⟩ := hc.errand _ herrand
    rw [hsome] at hentry
    cases hentry
  | enroll herrand | fileCreation herrand =>
    obtain ⟨-, -, -, hentry, -⟩ := hc.errand _ herrand
    rw [hsome] at hentry
    cases hentry
  | @announce order known herrand =>
    have hticker := hc.ticker_eq_none herrand
    refine h.idle hticker hticker rfl ?_ ?_
    · intro errand known' he hknown
      cases he
      cases hknown
      exact h.known _ known herrand rfl
    · intro world he
      cases he
  | @fileAnnouncement order known filing filing' events' herrand hfiles =>
    have hticker := hc.ticker_eq_none herrand
    refine h.idle hticker hticker rfl ?_ ?_
    · intro errand known' he hknown
      cases he
      cases hknown
      exact h.known _ known herrand rfl
    · intro world he
      cases he
  | takeUp herrand hannounce hentry hnew =>
    exact h.takeUp hinterval (hc.ticker_eq_none herrand) herrand rfl hentry
      (hc.markerFits hentry) hnew
  | takeUpAnnounced herrand hfiled hentry hnew =>
    exact h.takeUp hinterval (hc.ticker_eq_none herrand) herrand rfl hentry
      (hc.markerFits hentry) hnew
  | filePause herrand hfiles =>
    obtain ⟨-, -, hticker, -⟩ := hc.errand _ herrand
    refine h.idle hticker hticker rfl ?_ ?_
    · intro errand known he hknown
      cases he
      cases hknown
    · intro world he
      cases he
  | @giveUp errand herrand hjoining =>
    have hticker := hc.ticker_eq_none_of_ne herrand hjoining
    refine h.idle hticker hticker rfl ?_ ?_
    · intro errand known he
      cases he
    · intro world he
      cases he
  | @askStop t herrand hticker hstop =>
    refine h.go hticker hsome rfl hsome ?_ ?_ ?_
    · intro errand he
      cases he
      rfl
    · intro world he
      cases he
    · intro r hr
      exact hr.go hr.unbroken rfl rfl (Replay.beginsOwedTick_self _) (Replay.beginsTick_self _)
  | pause herrand hticker hphase hentry => exact h.pause hinterval hticker hphase hentry _
  | breakDown herrand hticker hphase =>
    obtain ⟨r, rest, -, hr⟩ := h.ticker _ entry₀ hticker hsome
    have hunbroken := hr.unbroken
    rw [hphase] at hunbroken
    cases hunbroken
  | pauseBroken herrand hentry => exact absurd herrand (h.unbroken a)
  | @goes t t' entry entry' hticker hentry hgoes =>
    have hsound : t'.phase.isCrashed = false := by
      obtain ⟨r, rest, rfl, -⟩ := h.ticker t entry hticker hentry
      have hhead := hunbroken (r.goOn t.phase t'.phase entry'.tickCount) (by
        rw [watch_go hticker rfl rfl]
        exact List.mem_cons_self)
      exact (Bool.or_eq_false_iff.mp hhead).2
    refine h.go hticker hentry rfl rfl ?_ h.unbroken fun r hr => hr.goes hgoes hsound
    intro errand herrand
    rw [hc.errand_eq_joining hticker herrand]
    rfl
  | fileTick hticker hphase hfiles =>
    refine h.go hticker hsome rfl hsome ?_ h.unbroken fun r hr => ?_
    · intro errand herrand
      rw [hc.errand_eq_joining hticker herrand]
      rfl
    · exact hr.go rfl (by rw [hphase]; rfl) rfl (by rw [hphase]; rfl) (by rw [hphase]; rfl)
  | fileResumption hticker hphase hfiles =>
    refine h.go hticker hsome rfl hsome ?_ h.unbroken fun r hr => ?_
    · intro errand herrand
      rw [hc.errand_eq_joining hticker herrand]
      rfl
    · exact hr.go rfl (by rw [hphase]; rfl) rfl (by rw [hphase]; rfl) (by rw [hphase]; rfl)

theorem Accounts.stay (hc : v.Coherent w a) (h : v.Accounts interval pausedAt ticks replays) :
    v.Accounts interval pausedAt ticks (Replay.watch m v v replays) := by
  cases hticker : v.ticker with
  | none =>
    rw [watch_idle hticker hticker]
    exact h
  | some t =>
    obtain ⟨entry, hentry, -⟩ := h.entry
    refine h.go hticker hentry hticker hentry ?_ h.unbroken fun r hr => ?_
    · intro errand herrand
      rw [hc.errand_eq_joining hticker herrand]
      rfl
    · exact hr.go hr.unbroken rfl rfl (Replay.beginsOwedTick_self _) (Replay.beginsTick_self _)

end View

theorem Replay.unbroken_of_watch {m : Moment} {v v' : View} {replays : List Replay}
    (h : ∀ r ∈ watch m v v' replays, r.brokeDown = false) :
    ∀ r ∈ replays, r.brokeDown = false := by
  unfold watch at h
  split at h
  · intro r hr
    exact h r (List.mem_cons_of_mem _ hr)
  · rw [List.forall_mem_cons] at h ⊢
    exact ⟨(Bool.or_eq_false_iff.mp h.1).1, h.2⟩
  · rwa [List.forall_mem_cons] at h ⊢
  · exact h

namespace Manager

variable {p : Manager} {a : WorldId} {interval : Duration} {pausedAt : Instant} {ticks : Count}
  {replays : List Replay}

theorem apply_step_of_spares (hp : p.Coherent) (m : Moment) {move : Move}
    (hspares : move.spares a = true) :
    (p.viewOf a).StaysOrSteps p.wiring m a ((p.apply m move).viewOf a) := by
  obtain heq | hsteps | ⟨change, entry, rfl, -⟩ := apply_cases hp m move a
  · exact .inl heq
  · exact .inr hsteps
  · exact absurd rfl (of_decide_eq_true hspares)

theorem unbroken_of_replays {moves : List (Moment × Move)}
    (h : ∀ r ∈ p.replays a replays moves, r.brokeDown = false) :
    ∀ r ∈ replays, r.brokeDown = false := by
  induction moves generalizing p replays with
  | nil => exact h
  | cons move moves ih => exact Replay.unbroken_of_watch (ih h)

theorem accounts_run (hp : p.Coherent) (hinterval : p.wiring.clock.tickInterval = interval)
    (h : (p.viewOf a).Accounts interval pausedAt ticks replays) {moves : List (Moment × Move)}
    (hspares : ∀ i ∈ moves, i.2.spares a = true)
    (hunbroken : ∀ r ∈ p.replays a replays moves, r.brokeDown = false) :
    ((p.run moves).viewOf a).Accounts interval pausedAt ticks (p.replays a replays moves) := by
  induction moves generalizing p replays with
  | nil => exact h
  | cons i moves ih =>
    obtain ⟨m, move⟩ := i
    rw [List.forall_mem_cons] at hspares
    refine ih (hp.apply m move) (by rw [apply_wiring hp, hinterval]) ?_ hspares.2 hunbroken
    have hwatch := unbroken_of_replays (p := p.apply m move) hunbroken
    obtain heq | hsteps := apply_step_of_spares hp m hspares.1
    · rw [heq]
      exact h.stay (hp a)
    · exact View.Step.accounts hinterval (hp a) h hsteps hwatch

end Manager

/-! ### What the replays of a world add up to -/

namespace Replay

def lastStop (pausedAt : Instant) : List Replay → Option Instant
  | [] => some pausedAt
  | r :: _ => r.stoppedAt

def lastPending : List Replay → Nat
  | [] => 0
  | r :: _ => r.pending

/-- The wall clock does not go back from a pause to the next resumption. -/
def InOrder (pausedAt : Instant) : List Replay → Prop
  | [] => True
  | r :: earlier =>
    (∀ stoppedAt ∈ lastStop pausedAt earlier, stoppedAt ≤ r.resumedAt) ∧ InOrder pausedAt earlier

/-- The pause after a replay can be moved back by all that is pending. -/
def IsDatable (interval : Duration) (r : Replay) : Prop :=
  ∀ stoppedAt ∈ r.stoppedAt, interval.nanos * r.pending ≤ Instant.greatestStep ∧
    Instant.minNanos ≤ stoppedAt.nanos - interval.nanos * r.pending

/-- No ticker breaks down, the wall clock does not go back, and no pause is out of reach. -/
structure IsRegular (interval : Duration) (pausedAt : Instant) (replays : List Replay) : Prop where
  unbroken : ∀ r ∈ replays, r.brokeDown = false
  inOrder : InOrder pausedAt replays
  datable : ∀ r ∈ replays, r.IsDatable interval

instance decidableInOrder (pausedAt : Instant) (replays : List Replay) :
    Decidable (InOrder pausedAt replays) :=
  match replays with
  | [] => isTrue trivial
  | _ :: earlier =>
    have := decidableInOrder pausedAt earlier
    inferInstanceAs (Decidable (_ ∧ _))

instance (interval : Duration) (r : Replay) : Decidable (r.IsDatable interval) :=
  inferInstanceAs (Decidable (∀ stoppedAt ∈ r.stoppedAt, _))

instance (interval : Duration) (pausedAt : Instant) (replays : List Replay) :
    Decidable (IsRegular interval pausedAt replays) :=
  decidable_of_iff ((∀ r ∈ replays, r.brokeDown = false) ∧ InOrder pausedAt replays ∧
    ∀ r ∈ replays, r.IsDatable interval)
    ⟨fun ⟨hunbroken, hclock, hdatable⟩ => ⟨hunbroken, hclock, hdatable⟩,
      fun h => ⟨h.unbroken, h.inOrder, h.datable⟩⟩

def made : List Replay → Nat
  | [] => 0
  | r :: earlier => r.caughtUp + made earlier

/-- Whole tick intervals between the pauses of a world and its resumptions. -/
def missed (interval : Duration) (pausedAt : Instant) : List Replay → Nat
  | [] => 0
  | r :: earlier =>
    (r.resumedAt.nanos - ((lastStop pausedAt earlier).getD pausedAt).nanos).toNat / interval.nanos +
      missed interval pausedAt earlier

theorem planned_eq {interval : Duration} (hinterval : nanosPerMilli ≤ interval.nanos)
    {pausedAt : Instant} {ticks : Count} {r : Replay} {earlier : List Replay}
    (h : Chained interval pausedAt ticks (r :: earlier)) (hclock : InOrder pausedAt (r :: earlier))
    (hdatable : ∀ q ∈ earlier, q.IsDatable interval) :
    ∃ stoppedAt, lastStop pausedAt earlier = some stoppedAt ∧
      r.planned.toNat = lastPending earlier +
        (r.resumedAt.nanos - stoppedAt.nanos).toNat / interval.nanos := by
  obtain ⟨-, -, ⟨mark, hmark, hplanned⟩, -⟩ := h
  rw [hplanned]
  cases earlier with
  | nil =>
    cases hmark
    refine ⟨pausedAt, rfl, ?_⟩
    rw [lastPending, Nat.zero_add]
    exact CatchUpPlan.units_between_of_le _ _ hinterval
  | cons q rest =>
    obtain ⟨stoppedAt, hstop, rfl⟩ := Option.map_eq_some_iff.mp hmark
    have hpending : (Count.ofNat q.pending).toNat = q.pending := by
      rw [Count.toNat_ofNat]
      exact Nat.min_eq_left (Nat.le_trans (Nat.sub_le _ _) q.planned.toNat_le_greatest)
    obtain ⟨hstep, hmin⟩ := hdatable q List.mem_cons_self stoppedAt hstop
    have hnow : stoppedAt ≤ r.resumedAt := hclock.1 stoppedAt hstop
    refine ⟨stoppedAt, hstop, ?_⟩
    rw [CatchUpPlan.units_between_backDated hinterval (by rwa [hpending]) (by rwa [hpending]) hnow,
      hpending]
    rfl

theorem chained_of_suffix {interval : Duration} {pausedAt : Instant} {ticks : Count}
    {replays earlier : List Replay} (h : Chained interval pausedAt ticks replays)
    (hsuffix : earlier <:+ replays) : Chained interval pausedAt ticks earlier := by
  induction replays with
  | nil =>
    rw [List.suffix_nil.mp hsuffix]
    trivial
  | cons r replays ih =>
    obtain heq | hrest := List.suffix_cons_iff.mp hsuffix
    · rw [heq]
      exact h
    · exact ih h.2.2.2 hrest

theorem inOrder_of_suffix {pausedAt : Instant} {replays earlier : List Replay}
    (h : InOrder pausedAt replays) (hsuffix : earlier <:+ replays) : InOrder pausedAt earlier := by
  induction replays with
  | nil =>
    rw [List.suffix_nil.mp hsuffix]
    trivial
  | cons r replays ih =>
    obtain heq | hrest := List.suffix_cons_iff.mp hsuffix
    · rw [heq]
      exact h
    · exact ih h.2 hrest

/-- Nothing is lost and nothing is made twice. -/
theorem made_add_lastPending {interval : Duration} (hinterval : nanosPerMilli ≤ interval.nanos)
    {pausedAt : Instant} {ticks : Count} {replays : List Replay}
    (h : Chained interval pausedAt ticks replays) (hclock : InOrder pausedAt replays)
    (hdatable : ∀ q ∈ replays, q.IsDatable interval) :
    made replays + lastPending replays = missed interval pausedAt replays := by
  induction replays with
  | nil => rfl
  | cons r earlier ih =>
    have hearlier : ∀ q ∈ earlier, q.IsDatable interval := fun q hq =>
      hdatable q (List.mem_cons_of_mem r hq)
    have hsum := ih h.2.2.2 hclock.2 hearlier
    obtain ⟨stoppedAt, hstop, hplanned⟩ := planned_eq hinterval h hclock hearlier
    have hle := h.1.caughtUp_le
    rw [made, missed, hstop, Option.getD_some]
    simp only [lastPending, pending]
    omega

end Replay

namespace Manager

/-- A world that is paused may be resumed and stopped as often as one likes, in any interleaving
with everything else its process does, with its appends stored or lost: each catch-up plans what the
one before it has left and the whole tick intervals since, each makes no more ticks than planned and
no steady tick before it is done, the tick count grows by the ticks made as far as it can, and all
catch-ups together make what was missed but for what the last one has left. -/
theorem replays_add_up {p : Manager} (hp : p.Coherent) (hw : p.wiring.IsUsable) {a : WorldId}
    {known : World} {pausedAt : Instant} (hentry : p.surroundings.registry.get? a = some known)
    (hstatus : known.status = .paused) (hpausedAt : known.pausedAt = some pausedAt)
    (hticker : p.tickers.get? a = none) (herrand : (p.viewOf a).errand = none)
    {moves : List (Moment × Move)} (hspares : ∀ i ∈ moves, i.2.spares a = true)
    (hregular : Replay.IsRegular p.wiring.clock.tickInterval pausedAt (p.replays a [] moves)) :
    (∀ r earlier, r :: earlier <:+ p.replays a [] moves →
      (∃ stoppedAt, Replay.lastStop pausedAt earlier = some stoppedAt ∧
        r.planned.toNat = Replay.lastPending earlier +
          (r.resumedAt.nanos - stoppedAt.nanos).toNat / p.wiring.clock.tickInterval.nanos) ∧
      r.caughtUp ≤ r.planned.toNat ∧ (r.caughtUp < r.planned.toNat → r.steady = 0) ∧
      r.ticksBefore = Replay.lastTicks known.tickCount earlier ∧
      r.ticksAfter.toNat =
        min (r.ticksBefore.toNat + r.caughtUp + r.steady) Count.greatest) ∧
    Replay.made (p.replays a [] moves) + Replay.lastPending (p.replays a [] moves) =
      Replay.missed p.wiring.clock.tickInterval pausedAt (p.replays a [] moves) ∧
    ∃ entry, (p.run moves).surroundings.registry.get? a = some entry ∧
      entry.tickCount = Replay.lastTicks known.tickCount (p.replays a [] moves) := by
  have hstart : (p.viewOf a).Accounts p.wiring.clock.tickInterval pausedAt known.tickCount [] := by
    refine ⟨⟨known, hentry, rfl, fun _ => ⟨hstatus, hpausedAt⟩⟩, ?_, ?_, ?_, trivial⟩
    · intro t entry ht
      have hnone := hticker.symm.trans ht
      cases hnone
    · intro errand known he
      rw [herrand] at he
      cases he
    · intro world he
      rw [herrand] at he
      cases he
  have haccounts := accounts_run hp rfl hstart hspares hregular.unbroken
  have hinterval := hw.le_tickInterval
  refine ⟨fun r earlier hsuffix => ?_, Replay.made_add_lastPending hinterval haccounts.chained
    hregular.inOrder hregular.datable, ?_⟩
  · have hchained := Replay.chained_of_suffix haccounts.chained hsuffix
    have hinOrder := Replay.inOrder_of_suffix hregular.inOrder hsuffix
    have hearlier : ∀ q ∈ earlier, q.IsDatable p.wiring.clock.tickInterval := fun q hq =>
      hregular.datable q (hsuffix.subset (List.mem_cons_of_mem _ hq))
    have hplanned := Replay.planned_eq hinterval hchained hinOrder hearlier
    obtain ⟨hsound, hbefore, -⟩ := hchained
    refine ⟨hplanned, hsound.caughtUp_le, fun hlt => ?_, hbefore, hsound.ticksAfter_eq⟩
    refine Nat.eq_zero_of_not_pos fun hpos => ?_
    exact Nat.ne_of_lt hlt (hsound.caughtUp_eq hpos)
  · obtain ⟨entry, hsome, hticks, -⟩ := haccounts.entry
    exact ⟨entry, hsome, hticks⟩

/-- The interrupted world is resumed once more. -/
def resumedTwice (world : WorldId) : List (Moment × Move) :=
  resumedOnce world ++
    [(momentAt 370, .conclude .answered), (momentAt 590, .spawn ⟨world, "world", .one⟩),
      (momentAt 590, .read none), (momentAt 590, .file), (momentAt 590, .conclude .answered)]

theorem spares_resumedTwice (world : WorldId) :
    ∀ i ∈ resumedTwice world, i.2.spares world = true := by
  simp [resumedTwice, resumedOnce, Move.spares]

/-- One of two planned ticks is made before the stop; the next plan has the other one and two
more. -/
theorem replays_add_up_of_resumedTwice :
    ∃ replays, replays = ((start .standard .empty none).run (pausedOnce ⟨⟨0⟩⟩)).replays ⟨⟨0⟩⟩ []
        (resumedTwice ⟨⟨0⟩⟩) ∧
      replays.map (fun r => (r.planned, r.caughtUp)) = [(3, 0), (2, 1)] ∧
      Replay.made replays + Replay.lastPending replays =
        Replay.missed Wiring.standard.clock.tickInterval (momentAt 120).wall replays := by
  have hp := (coherent_start .standard .empty none).run (pausedOnce ⟨⟨0⟩⟩)
  have hwiring : ((start .standard .empty none).run (pausedOnce ⟨⟨0⟩⟩)).wiring = .standard := by
    decide +kernel
  have hw := Wiring.isUsable_standard
  rw [← hwiring] at hw
  have hknown : (((start .standard .empty none).run (pausedOnce ⟨⟨0⟩⟩)).surroundings.registry.get?
      ⟨⟨0⟩⟩).any (fun known => decide (known.status = .paused ∧
        known.pausedAt = some (momentAt 120).wall)) = true := by decide +kernel
  obtain ⟨known, hentry, hpaused⟩ := (Option.any_eq_true _ _).mp hknown
  obtain ⟨hstatus, hpausedAt⟩ := of_decide_eq_true hpaused
  have hticker : ((start .standard .empty none).run (pausedOnce ⟨⟨0⟩⟩)).tickers.get? ⟨⟨0⟩⟩ = none :=
    Option.isNone_iff_eq_none.mp (by decide +kernel)
  have herrand : (((start .standard .empty none).run (pausedOnce ⟨⟨0⟩⟩)).viewOf ⟨⟨0⟩⟩).errand =
      none := Option.isNone_iff_eq_none.mp (by decide +kernel)
  have hregular : Replay.IsRegular ((start .standard .empty none).run
      (pausedOnce ⟨⟨0⟩⟩)).wiring.clock.tickInterval (momentAt 120).wall (((start .standard .empty
        none).run (pausedOnce ⟨⟨0⟩⟩)).replays ⟨⟨0⟩⟩ [] (resumedTwice ⟨⟨0⟩⟩)) := by decide +kernel
  have hcounts : (((start .standard .empty none).run (pausedOnce ⟨⟨0⟩⟩)).replays ⟨⟨0⟩⟩ []
      (resumedTwice ⟨⟨0⟩⟩)).map (fun r => (r.planned, r.caughtUp)) = [(3, 0), (2, 1)] := by
    decide +kernel
  obtain ⟨-, hsum, -⟩ := replays_add_up hp hw hentry hstatus hpausedAt hticker herrand
    (spares_resumedTwice _) hregular
  rw [hwiring] at hsum
  exact ⟨_, rfl, hcounts, hsum⟩

/-- The same world, when it has made all the ticks that can be counted. -/
def fullOnce (world : WorldId) : List (Moment × Move) :=
  pausedOnce world ++ [(momentAt 120, .update world fun known =>
    { known with tickCount := Count.ofNat Count.greatest })]

/-- A tick of a catch-up that no longer counts. -/
theorem ticksAfter_ne_of_fullOnce :
    ∃ r ∈ ((start .standard .empty none).run (fullOnce ⟨⟨0⟩⟩)).replays ⟨⟨0⟩⟩ []
        (resumedTwice ⟨⟨0⟩⟩),
      r.planned = 2 ∧ r.caughtUp = 1 ∧ r.steady = 0 ∧ r.brokeDown = false ∧
        r.stoppedAt = some (momentAt 370).wall ∧
        r.ticksAfter.toNat ≠ r.ticksBefore.toNat + r.caughtUp := by
  decide +kernel

end Manager

end WorldClock
