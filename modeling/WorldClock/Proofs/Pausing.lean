import WorldClock.Proofs.Retirement
import WorldClock.Proofs.StopAndRestore
import WorldClock.Proofs.Manager.Observation

/-!
# Pausing

A stop takes the ticker of a world away first and writes the pause when the ticker is over. If the
ticker has broken down, it asks the log for the latest version in between, and when the log cannot
tell, it returns there and leaves the entry of the world as it was. Otherwise the world is paused
when a stop returns, whatever has become of the event, and the next ticker starts with the catch-up
from the mark (`Manager.stop_pauses_iff`).
-/

namespace WorldClock

/-- A world that is paused since an instant. -/
def World.PausedSince (world : World) (mark : Instant) : Prop :=
  world.status = .paused ∧ world.pausedAt = some mark

theorem World.PausedSince.planAt {world : World} {mark : Instant} (h : world.PausedSince mark)
    (interval : Duration) (now : Instant) :
    world.planAt interval now = some (CatchUpPlan.between mark now interval) := by
  rw [World.planAt, h.1, h.2]

theorem World.pausedSince_paused (world : World) (mark : Instant) :
    (World.paused mark world).PausedSince mark := ⟨rfl, rfl⟩

namespace View

def PausedSince (v : View) (mark : Instant) : Prop :=
  ∃ entry, v.entry = some entry ∧ entry.PausedSince mark

/-- A ticker that is new, with the catch-up from a mark before it. -/
def StartsFrom (w : Wiring) (now : Instant) (mark : Instant) (v : View) : Prop :=
  ∃ t, v.ticker = some t ∧
    t.phase = .starting (some (CatchUpPlan.between mark now w.clock.tickInterval))

variable {w : Wiring} {m : Moment} {a : WorldId} {v v' : View} {mark : Instant}

/-! ### While a stop waits -/

/-- A stop that waits for its append has paused its world. -/
def PausesFirst (a : WorldId) (v : View) : Prop :=
  ∀ filing world pending, v.errand = some (.stop a (.recording filing world pending)) →
    ∃ mark, v.PausedSince mark

theorem pausesFirst_paused (entry : World) (version pending : Count) :
    (v.paused w m a entry version pending).PausesFirst a :=
  fun _ _ _ _ => ⟨_, _, rfl, World.pausedSince_paused entry _⟩

theorem pausesFirst_of_ticker (hc : v.Coherent w a) {t : Ticker} (hticker : v.ticker = some t)
    (herrand : v'.errand = v.errand) : v'.PausesFirst a := by
  intro filing world pending hrecording
  rw [herrand] at hrecording
  cases hc.errand_eq_joining hticker hrecording

theorem Step.pausesFirst (h : v.Step w m a v') (hc : v.Coherent w a) (hv : v.PausesFirst a) :
    v'.PausesFirst a := by
  cases h with
  | pause | pauseBroken => exact pausesFirst_paused _ _ _
  | filePause herrand => exact fun _ _ _ _ => hv _ _ _ herrand
  | goes hticker | fileTick hticker | fileResumption hticker =>
    exact pausesFirst_of_ticker hc hticker rfl
  | _ => rintro filing world pending ⟨⟩

/-- A stop that returns leaves the entry of its world as it is. Its ticker is gone by then. -/
theorem Step.eq_of_stop_over (h : v.Step w m a v') {stage : StopStage}
    (hstop : v.errand = some (.stop a stage)) (hover : v'.errand = none) :
    stage ≠ .joining ∧ v' = { v with errand := none } := by
  cases h with
  | giveUp herrand hjoining =>
    refine ⟨?_, rfl⟩
    rintro rfl
    exact hjoining (Option.some.inj (herrand.symm.trans hstop))
  | takeUp herrand | takeUpAnnounced herrand | enroll herrand =>
    rw [hstop] at herrand
    cases herrand
  | goes | fileTick | fileResumption =>
    rw [show v.errand = none from hover] at hstop
    cases hstop
  | _ => cases hover

/-- A stop that asks for the version of a ticker that broke down finds its world unpaused. -/
def AsksUnpaused (a : WorldId) (v : View) : Prop :=
  v.errand = some (.stop a .readingVersion) → ∀ mark, ¬v.PausedSince mark

theorem Attuned.not_pausedSince (hv : v.Attuned a) {t : Ticker} (hticker : v.ticker = some t) :
    ¬v.PausedSince mark := by
  rintro ⟨entry, hentry, hstatus, -⟩
  obtain hactive | hactive := (hv.ticker t entry hticker hentry).active <;>
  · rw [hactive] at hstatus
    cases hstatus

theorem Step.asksUnpaused (h : v.Step w m a v') (hc : v.Coherent w a) (hattuned : v.Attuned a) :
    v'.AsksUnpaused a := by
  cases h with
  | breakDown _ hticker => exact fun _ mark => hattuned.not_pausedSince hticker
  | goes hticker | fileTick hticker | fileResumption hticker =>
    intro hreading
    cases hc.errand_eq_joining hticker hreading
  | _ => rintro ⟨⟩

/-! ### Until the next start -/

/-- A paused world without a ticker. A spawn that has looked at it knows its mark. -/
structure Rests (mark : Instant) (v : View) : Prop where
  paused : v.PausedSince mark
  ticker : v.ticker = none
  errand : ∀ errand, v.errand = some errand → ∃ order known, World.PausedSince known mark ∧
    (errand = .spawn order (.readingVersion known) ∨
      ∃ filing, errand = .spawn order (.announcing known filing))

theorem startsFrom_takenUp {order : SpawnOrder} {known entry : World} {version : Count}
    {weatherSyncedAt : Duration} {t : Ticker} (hknown : known.PausedSince mark)
    (hnew : Ticker.new? w.clock a order.dilation version weatherSyncedAt
      (known.planAt w.clock.tickInterval m.wall) = some t) :
    (v.takenUp w m order known entry t).StartsFrom w m.wall mark := by
  obtain ⟨delta, -, rfl⟩ := Option.map_eq_some_iff.mp hnew
  exact ⟨_, rfl, congrArg Phase.starting (hknown.planAt _ _)⟩

/-- A paused world rests until its next ticker starts with the catch-up from its mark. -/
theorem Step.rests_or_startsFrom (h : v.Step w m a v') (hv : v.Rests mark) :
    v'.Rests mark ∨ v'.StartsFrom w m.wall mark := by
  obtain ⟨entry, hentry, hpaused⟩ := hv.paused
  have hreads {order : SpawnOrder} {known : World}
      (herrand : v.errand = some (.spawn order (.readingVersion known))) :
      known.PausedSince mark := by
    obtain ⟨_, _, hknown, heq | ⟨_, heq⟩⟩ := hv.errand _ herrand
    · cases heq
      exact hknown
    · cases heq
  have hannounces {order : SpawnOrder} {known : World} {filing : Filing}
      (herrand : v.errand = some (.spawn order (.announcing known filing))) :
      known.PausedSince mark := by
    obtain ⟨_, _, hknown, heq | ⟨_, heq⟩⟩ := hv.errand _ herrand
    · cases heq
    · cases heq
      exact hknown
  cases h with
  | @askKnown order known _ _ _ hknown =>
    obtain rfl := Option.some.inj (hentry.symm.trans hknown)
    refine .inl ⟨hv.paused, hv.ticker, ?_⟩
    rintro errand ⟨⟩
    exact ⟨order, entry, hpaused, .inl rfl⟩
  | announce herrand =>
    refine .inl ⟨hv.paused, hv.ticker, ?_⟩
    rintro errand ⟨⟩
    exact ⟨_, _, hreads herrand, .inr ⟨_, rfl⟩⟩
  | fileAnnouncement herrand =>
    refine .inl ⟨hv.paused, hv.ticker, ?_⟩
    rintro errand ⟨⟩
    exact ⟨_, _, hannounces herrand, .inr ⟨_, rfl⟩⟩
  | giveUp => exact .inl ⟨hv.paused, hv.ticker, by rintro errand ⟨⟩⟩
  | takeUp herrand _ _ hnew => exact .inr (startsFrom_takenUp (hreads herrand) hnew)
  | takeUpAnnounced herrand _ _ hnew => exact .inr (startsFrom_takenUp (hannounces herrand) hnew)
  | askUnknown _ _ _ hnone =>
    rw [hentry] at hnone
    cases hnone
  | askStop _ hticker | goes hticker | fileTick hticker | fileResumption hticker =>
    rw [hv.ticker] at hticker
    cases hticker
  | create herrand | restore herrand | enroll herrand | fileCreation herrand | filePause herrand
  | pause herrand | breakDown herrand | pauseBroken herrand =>
    obtain ⟨_, _, _, heq | ⟨_, heq⟩⟩ := hv.errand _ herrand <;> cases heq

end View

namespace Manager

/-- A world is paused, and the next ticker of it starts with the catch-up from its mark, however
long nobody starts one and whatever else the process does. -/
def ResumesFrom (p : Manager) (a : WorldId) (mark : Instant) : Prop :=
  (p.viewOf a).PausedSince mark ∧
    ∀ moves : List (Moment × Move), (∀ move ∈ moves, move.2.isOwn = true) →
      p.throughout a (fun v _ v' => !v.starts v') (moves.map fun (m, move) => .move m move) = true →
      ∀ m move, move.isOwn = true →
        ((p.run moves).viewOf a).starts (((p.run moves).apply m move).viewOf a) = true →
        (((p.run moves).apply m move).viewOf a).StartsFrom p.wiring m.wall mark

variable {p : Manager} {m : Moment} {a : WorldId} {mark : Instant}

theorem rests_or_startsFrom_apply (hp : p.Coherent) (hrests : (p.viewOf a).Rests mark) {move : Move}
    (hown : move.isOwn = true) : ((p.apply m move).viewOf a).Rests mark ∨
      ((p.apply m move).viewOf a).StartsFrom p.wiring m.wall mark := by
  obtain heq | hsteps := apply_step hp m hown a
  · exact .inl (heq ▸ hrests)
  · exact hsteps.rests_or_startsFrom hrests

theorem rests_run (hp : p.Coherent) (hrests : (p.viewOf a).Rests mark)
    {moves : List (Moment × Move)} (hown : ∀ move ∈ moves, move.2.isOwn = true)
    (hnone : p.throughout a (fun v _ v' => !v.starts v')
      (moves.map fun (m, move) => .move m move) = true) :
    (p.run moves).Coherent ∧ (p.run moves).wiring = p.wiring ∧
      ((p.run moves).viewOf a).Rests mark := by
  induction moves generalizing p with
  | nil => exact ⟨hp, rfl, hrests⟩
  | cons first moves ih =>
    obtain ⟨m, move⟩ := first
    obtain ⟨hfirst, hrest⟩ := List.forall_mem_cons.mp hown
    rw [List.map_cons, throughout, Bool.and_eq_true, Bool.not_eq_true'] at hnone
    obtain ⟨hstarts, hnone⟩ := hnone
    have hnext : ((p.apply m move).viewOf a).Rests mark := by
      obtain hnext | ⟨t, hticker, -⟩ := rests_or_startsFrom_apply (m := m) hp hrests hfirst
      · exact hnext
      · have hafter : ((p.meet (.move m move)).viewOf a).ticker = some t := hticker
        rw [View.starts, hrests.ticker, hafter] at hstarts
        cases hstarts
    rw [← apply_wiring hp m move]
    exact ih (hp.apply m move) hnext hrest hnone

theorem resumesFrom_of_rests (hp : p.Coherent) (hrests : (p.viewOf a).Rests mark) :
    p.ResumesFrom a mark := by
  refine ⟨hrests.paused, fun moves hown hnone m move hmove hstarts => ?_⟩
  obtain ⟨hcoherent, hwiring, hrests'⟩ := rests_run hp hrests hown hnone
  obtain hnext | hstart := rests_or_startsFrom_apply (m := m) hcoherent hrests' hmove
  · rw [View.starts, hnext.ticker, Option.isSome_none, Bool.and_false] at hstarts
    cases hstarts
  · exact hwiring ▸ hstart

theorem pausesFirst_run (hp : p.Coherent) (hpauses : (p.viewOf a).PausesFirst a)
    {moves : List (Moment × Move)} (hown : ∀ move ∈ moves, move.2.isOwn = true) :
    (p.run moves).Coherent ∧ ((p.run moves).viewOf a).PausesFirst a := by
  induction moves generalizing p with
  | nil => exact ⟨hp, hpauses⟩
  | cons first moves ih =>
    obtain ⟨m, move⟩ := first
    obtain ⟨hfirst, hrest⟩ := List.forall_mem_cons.mp hown
    refine ih (hp.apply m move) ?_ hrest
    obtain heq | hsteps := apply_step hp m hfirst a
    · exact heq ▸ hpauses
    · exact hsteps.pausesFirst (hp a) hpauses

/-- As long as the managers are the only writers, a world with a ticker is not paused. -/
theorem asksUnpaused_live {w : Wiring} (hw : w.IsUsable) (log : EventLog)
    (projections : Option (Dispatcher ReadModel)) {course : List Incident}
    (hown : ∀ i ∈ course, i.IsOwn) (a : WorldId) :
    (((start w log projections).live course).viewOf a).AsksUnpaused a := by
  refine (live_keeps (fun v => v.Attuned a ∧ v.AsksUnpaused a) ?_ ?_
    (coherent_start w log projections) hw ?_ hown).2
  · exact fun _ _ _ _ _ hc ⟨hattuned, _⟩ hsteps =>
      ⟨hsteps.attuned hc hattuned, hsteps.asksUnpaused hc hattuned⟩
  · exact fun v _ => ⟨View.attuned_afterDeath v, by rintro ⟨⟩⟩
  · exact ⟨View.attuned_afterDeath ((start w log projections).viewOf a), by rintro ⟨⟩⟩

/-- The view of a world when a stop of it returns. -/
theorem viewOf_of_stop_over (hp : p.Coherent) {stage : StopStage}
    (hstop : p.errand = some (.stop a stage)) {move : Move} (hown : move.isOwn = true)
    {result : Except ManagerError Unit} (hover : (p.apply m move).result? = some result) :
    stage ≠ .joining ∧ (p.apply m move).viewOf a = { p.viewOf a with errand := none } := by
  have herrand := errand_eq_some p hstop rfl
  have hidle : ((p.apply m move).viewOf a).errand = none := by
    refine errand_eq_none_of_not_isBusy _ a ?_
    rw [isBusy, errand_of_result? hover]
  obtain heq | hsteps := apply_step hp m hown a
  · rw [heq, herrand] at hidle
    cases hidle
  · exact hsteps.eq_of_stop_over herrand hidle

/-- Whether a stop of a world asks the log for the version that a ticker could not tell. -/
def asksVersion (p : Manager) (a : WorldId) : Bool :=
  match p.errand with
  | some (.stop world .readingVersion) => decide (world = a)
  | _ => false

theorem asksVersion_iff : p.asksVersion a = true ↔ p.errand = some (.stop a .readingVersion) := by
  rw [asksVersion]
  split
  · next world herrand => simp [herrand]
  · next hother =>
    exact ⟨fun h => (nomatch h), fun herrand => absurd herrand (hother a)⟩

/-- A course that goes on with a call of a stop and some moves. -/
theorem live_stop (p : Manager) {course : List Incident} (hcourse : ∀ i ∈ course, i.IsOwn)
    (called : Moment) (a : WorldId) {moves : List (Moment × Move)}
    (hown : ∀ move ∈ moves, move.2.isOwn = true) :
    (∀ i ∈ course ++ .move called (.stop a) :: moves.map fun (m, move) => Incident.move m move,
        i.IsOwn) ∧
      p.live (course ++ .move called (.stop a) :: moves.map fun (m, move) => .move m move) =
        ((p.live course).apply called (.stop a)).run moves := by
  constructor
  · refine List.forall_mem_append.mpr ⟨hcourse, List.forall_mem_cons.mpr ⟨rfl, ?_⟩⟩
    rw [List.forall_mem_map]
    exact hown
  · rw [live, List.foldl_append, List.foldl_cons]
    exact (live_run _ moves).symm

/-- A stop is called for a world with an active ticker, in any state that a process can be in. When
it returns, well or with an error, the world has no active ticker. It is paused, and its next ticker
catches up from the mark, exactly if the stop does not end in vain while it asks for the version of
a ticker that broke down, unless the world was paused already. As long as the managers are the only
writers, it is not. -/
theorem stop_pauses_iff {w : Wiring} (hw : w.IsUsable) (log : EventLog)
    (projections : Option (Dispatcher ReadModel)) (course : List Incident) {a : WorldId}
    (called : Moment) (hfree : ((start w log projections).live course).isBusy = false)
    (hactive : ((start w log projections).live course).isActive a = true)
    {moves : List (Moment × Move)} (hown : ∀ move ∈ moves, move.2.isOwn = true) :
    let p := (((start w log projections).live course).apply called (.stop a)).run moves
    ∀ m move result, move.isOwn = true → p.stopping? = some a →
      (p.apply m move).result? = some result →
      (p.apply m move).isActive a = false ∧
        ((∃ mark, (p.apply m move).ResumesFrom a mark) ↔
          p.asksVersion a = false ∨ ∃ mark, (p.viewOf a).PausedSince mark) ∧
        ((∀ i ∈ course, i.IsOwn) → p.asksVersion a = true →
          ¬∃ mark, (p.viewOf a).PausedSince mark) := by
  intro p m move result hmove hstop hover
  have hcoherent := ((coherent_start w log projections).live course).apply called (.stop a)
  have hcalled : ((((start w log projections).live course).apply called (.stop a)).viewOf
      a).PausesFirst a := by
    rw [apply, hfree, if_neg Bool.false_ne_true, beginStop, if_pos hactive, viewOf_stopAt,
      if_pos rfl]
    rintro filing world pending ⟨⟩
  obtain ⟨hp, hpauses⟩ : p.Coherent ∧ (p.viewOf a).PausesFirst a :=
    pausesFirst_run hcoherent hcalled hown
  obtain ⟨stage, hstage⟩ := errand_of_stopping? hstop
  have herrand := errand_eq_some p hstage rfl
  obtain ⟨hjoining, hview⟩ := viewOf_of_stop_over (m := m) hp hstage hmove hover
  have hticker : (p.viewOf a).ticker = none :=
    (hp a).ticker_eq_none_of_ne herrand (by simpa using hjoining)
  have hgone : (p.apply m move).tickers.get? a = none := (congrArg View.ticker hview).trans hticker
  have hsame (mark : Instant) :
      ((p.apply m move).viewOf a).PausedSince mark ↔ (p.viewOf a).PausedSince mark := by
    rw [hview]
    exact Iff.rfl
  refine ⟨by rw [isActive, hgone],
    ⟨fun hresumes => .inr (hresumes.imp fun mark h => (hsame mark).mp h.1), fun hrecords => ?_⟩,
    fun hcourse hreading => ?_⟩
  · obtain ⟨mark, hmark⟩ : ∃ mark, (p.viewOf a).PausedSince mark := by
      obtain hreading | hpaused := hrecords
      · cases stage with
        | joining => exact absurd rfl hjoining
        | readingVersion =>
          rw [asksVersion_iff.mpr hstage] at hreading
          cases hreading
        | recording filing world pending => exact hpauses _ _ _ herrand
      · exact hpaused
    exact ⟨mark, resumesFrom_of_rests (hp.apply m move)
      ⟨(hsame mark).mpr hmark, by rw [hview]; exact hticker, by rw [hview]; rintro errand ⟨⟩⟩⟩
  · obtain ⟨hall, hlive⟩ := live_stop (start w log projections) hcourse called a hown
    have hunpaused := asksUnpaused_live hw log projections hall a
    rw [hlive] at hunpaused
    rintro ⟨mark, hmark⟩
    exact hunpaused (errand_eq_some p (asksVersion_iff.mp hreading) rfl) mark hmark

/-- A world is created, and its ticker breaks down while it records its first tick. -/
def brokenDownOnce (world : WorldId) : List Incident :=
  ((pausedOnce world).take 6 ++ [(momentAt 100, Move.crash world "a publication")]).map
    fun (m, move) => .move m move

/-- The world is asked to stop, and its ticker turns out to have broken down. -/
def askedToStop (world : WorldId) (moves : List (Moment × Move)) : Manager :=
  (((start .standard .empty none).live (brokenDownOnce world)).apply (momentAt 120)
    (.stop world)).run ((momentAt 120, .join) :: moves)

/-- If the log cannot tell the latest version, the stop leaves the world as it is; if it can, the
world is paused also when its pause is lost. -/
theorem stop_pauses_iff_of_brokenDownOnce :
    let unread := (askedToStop ⟨⟨0⟩⟩ []).apply (momentAt 120) (.read (some (.backend "no answer")))
    let lost := (askedToStop ⟨⟨0⟩⟩ [(momentAt 120, .read none)]).apply (momentAt 130)
      (.conclude (.failed (.backend "no answer")))
    (unread.isActive ⟨⟨0⟩⟩ = false ∧ ¬∃ mark, unread.ResumesFrom ⟨⟨0⟩⟩ mark) ∧
      lost.isActive ⟨⟨0⟩⟩ = false ∧ ∃ mark, lost.ResumesFrom ⟨⟨0⟩⟩ mark := by
  have hcourse : ∀ i ∈ brokenDownOnce ⟨⟨0⟩⟩, i.IsOwn := by
    simp [brokenDownOnce, pausedOnce, Incident.IsOwn, Move.isOwn]
  have hfree : ((start .standard .empty none).live (brokenDownOnce ⟨⟨0⟩⟩)).isBusy = false := by
    decide +kernel
  have hactive : ((start .standard .empty none).live (brokenDownOnce ⟨⟨0⟩⟩)).isActive ⟨⟨0⟩⟩ =
      true := by decide +kernel
  have hreading : (askedToStop ⟨⟨0⟩⟩ []).asksVersion ⟨⟨0⟩⟩ = true := by decide +kernel
  have hstop := @stop_pauses_iff _ Wiring.isUsable_standard .empty none (brokenDownOnce ⟨⟨0⟩⟩)
    ⟨⟨0⟩⟩ (momentAt 120) hfree hactive
  refine ⟨?_, ?_⟩
  · obtain ⟨hgone, hiff, hnone⟩ := @hstop [(momentAt 120, .join)] (by decide) (momentAt 120)
      (.read (some (.backend "no answer"))) (.error (.log (.backend "no answer"))) rfl
      (by decide +kernel) (by decide +kernel)
    refine ⟨hgone, fun hresumes => ?_⟩
    obtain hother | hpaused := hiff.mp hresumes
    · exact absurd hreading (Bool.eq_false_iff.mp hother)
    · exact hnone hcourse hreading hpaused
  · obtain ⟨hgone, hiff, -⟩ := @hstop [(momentAt 120, .join), (momentAt 120, .read none)]
      (by decide) (momentAt 130) (.conclude (.failed (.backend "no answer")))
      (.error (.log (.backend "no answer"))) rfl (by decide +kernel) (by decide +kernel)
    exact ⟨hgone, hiff.mpr (.inl (by decide +kernel))⟩

end Manager

end WorldClock
