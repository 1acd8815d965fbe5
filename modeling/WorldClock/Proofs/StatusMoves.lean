import Mathlib.Data.List.Chain
import WorldClock.Proofs.Manager.Observation

/-!
# The moves of a status

A world is in the table of tickers, in the registry and, if it is paused, carries a mark; spawns,
stops and tickers write these one by one. Still they agree as long as no driver breaks down: an
entry without a ticker is paused at every moment (`View.Settled`), and the entry of a ticker is not.
So between two errands the active worlds are those whose status says so, and a status moves only as
a spawn, a catch-up or a stop moves it (`Manager.lifecycle_of_run`).

Nothing is asked of the log here: what it holds may be unreadable, and it may fail at any time.
-/

namespace WorldClock

/-- How the status of a world moves; no status is that of a world that is not in the registry. -/
inductive StatusMove : Option Status → Option Status → Prop where
  | create : StatusMove none (some .running)
  | restore : StatusMove none (some .paused)
  | resume : StatusMove (some .paused) (some .catchingUp)
  | complete : StatusMove (some .catchingUp) (some .running)
  | interrupt : StatusMove (some .catchingUp) (some .paused)
  | pause : StatusMove (some .running) (some .paused)

/-- A status stays as it is or moves. -/
def StatusMove.OrStays (s s' : Option Status) : Prop := s' = s ∨ StatusMove s s'

namespace View

def status? (v : View) : Option Status := v.entry.map (·.status)

/-- A world without a ticker is paused, and no stop has to look for the version of a ticker that
broke down. -/
structure Settled (a : WorldId) (v : View) : Prop where
  paused : v.ticker = none → ∀ entry, v.entry = some entry → entry.status = .paused
  reading : v.errand ≠ some (.stop a .readingVersion)

variable {w : Wiring} {m : Moment} {a : WorldId} {v v' : View}

theorem settled_of_ticker {entry : Option World} {t : Ticker} {errand : Option Errand}
    {events : List Event} (hreading : errand ≠ some (.stop a .readingVersion)) :
    (View.mk entry (some t) errand events).Settled a :=
  ⟨by rintro ⟨⟩, hreading⟩

theorem Settled.of_ticker_eq (hv : v.Settled a) (hticker : v'.ticker = v.ticker)
    (hentry : v'.entry = v.entry) (hreading : v'.errand ≠ some (.stop a .readingVersion)) :
    v'.Settled a :=
  ⟨fun hnone => hentry ▸ hv.paused (hticker ▸ hnone), hreading⟩

/-- A paused world is taken up with a plan. -/
theorem status_resumed_of_paused {order : SpawnOrder} {known : World}
    (hpaused : known.status = .paused) (hmarker : known.markerFits = true) (entry : World) :
    (Manager.resumed order (known.planAt w.clock.tickInterval m.wall) entry).status =
      .catchingUp := by
  have hmark : known.pausedAt.isSome = true := by
    simpa [World.markerFits, hpaused] using hmarker
  obtain ⟨pausedAt, hpausedAt⟩ := Option.isSome_iff_exists.mp hmark
  simp [Manager.resumed, World.planAt, hpaused, hpausedAt]

/-- A spawn that takes up a known world finds it paused. -/
theorem Settled.status_takenUp (hv : v.Settled a) (hc : v.Coherent w a) {order : SpawnOrder}
    {stage : SpawnStage} {known entry : World} {t : Ticker}
    (herrand : v.errand = some (.spawn order stage)) (hknown : v.entry = some known) :
    StatusMove v.status? (v.takenUp w m order known entry t).status? := by
  have hpaused := hv.paused (hc.ticker_eq_none herrand) known hknown
  have hresumed : (Manager.resumed order (known.planAt w.clock.tickInterval m.wall) entry).status =
      .catchingUp := status_resumed_of_paused hpaused (hc.markerFits hknown) entry
  have hbefore : v.status? = some .paused := by
    rw [status?, hknown, Option.map_some, hpaused]
  have hafter : (v.takenUp w m order known entry t).status? = some .catchingUp :=
    congrArg some hresumed
  rw [hbefore, hafter]
  exact .resume

/-- A stop finds the world of a ticker running or catching up. -/
theorem Attuned.status_paused (hv : v.Attuned a) {t : Ticker} {entry : World}
    (hticker : v.ticker = some t) (hentry : v.entry = some entry) (version pending : Count) :
    StatusMove v.status? (v.paused w m a entry version pending).status? := by
  have hafter : (v.paused w m a entry version pending).status? = some .paused := rfl
  rw [hafter, status?, hentry, Option.map_some]
  obtain hrunning | hcatching := (hv.ticker t entry hticker hentry).active
  · rw [hrunning]
    exact .pause
  · rw [hcatching]
    exact .interrupt

/-- The only step of a ticker that moves a status ends a catch-up. -/
theorem status_of_goes {t t' : Ticker} {entry entry' : World} (ht : t.Attuned entry)
    (hgoes : t.Goes w m entry t' entry') :
    StatusMove.OrStays (some entry.status) (some entry'.status) := by
  cases hgoes with
  | complete hphase hpending =>
    have hcatching : entry.status = .catchingUp := ht.status _ (by rw [hphase]; rfl)
    have hrunning : Ticker.markRunning entry = { entry with status := .running } :=
      if_pos hcatching
    rw [hrunning, hcatching]
    exact .inr .complete
  | _ => exact .inl rfl

/-- A step that is not that of a driver breaking down keeps an entry without a ticker paused, and
moves the status as it may. -/
theorem Step.settled (h : v.Step w m a v') (hc : v.Coherent w a) (hatt : v.Attuned a)
    (hv : v.Settled a) (hsound : v.isBroken = false) :
    v'.Settled a ∧ StatusMove.OrStays v.status? v'.status? := by
  cases h with
  | askKnown | askUnknown | create | announce | fileCreation | fileAnnouncement | filePause
  | giveUp => exact ⟨hv.of_ticker_eq rfl rfl (by rintro ⟨⟩), .inl rfl⟩
  | @restore order t count herrand hworld hhistory =>
    obtain ⟨-, -, -, hnone⟩ := hc.errand _ herrand
    refine ⟨⟨?_, by rintro ⟨⟩⟩, .inr ?_⟩
    · rintro - entry ⟨⟩
      rfl
    · rw [status?, hnone]
      exact .restore
  | takeUp herrand =>
    have hknown := hatt.known _ _ herrand
    exact ⟨settled_of_ticker (by rintro ⟨⟩), .inr (hv.status_takenUp hc herrand hknown)⟩
  | takeUpAnnounced herrand =>
    obtain ⟨hknown, -⟩ := hatt.announcing _ _ _ herrand
    exact ⟨settled_of_ticker (by rintro ⟨⟩), .inr (hv.status_takenUp hc herrand hknown)⟩
  | enroll herrand =>
    obtain ⟨-, -, -, hnone, -⟩ := hc.errand _ herrand
    refine ⟨settled_of_ticker (by rintro ⟨⟩), .inr ?_⟩
    rw [status?, hnone]
    exact .create
  | askStop => exact ⟨settled_of_ticker (by rintro ⟨⟩), .inl rfl⟩
  | @pause t pending entry herrand hticker hphase hentry =>
    refine ⟨⟨?_, by rintro ⟨⟩⟩, .inr (hatt.status_paused hticker hentry _ _)⟩
    rintro - e ⟨⟩
    rfl
  | breakDown herrand hticker hphase =>
    rw [isBroken, hticker, Option.any_some, hphase] at hsound
    cases hsound
  | pauseBroken herrand => exact absurd herrand hv.reading
  | @goes t t' entry entry' hticker hentry hgoes =>
    refine ⟨settled_of_ticker hv.reading, ?_⟩
    rw [status?, hentry]
    exact status_of_goes (hatt.ticker t entry hticker hentry) hgoes
  | fileTick | fileResumption => exact ⟨settled_of_ticker hv.reading, .inl rfl⟩

/-- Between two errands the ticker of a world stands in the table exactly if its status says so. -/
theorem Settled.active_iff (hv : v.Settled a) (hc : v.Coherent w a) (hatt : v.Attuned a) :
    v.ticker ≠ none ↔ ∃ entry, v.entry = some entry ∧
      (entry.status = .running ∨ entry.status = .catchingUp) := by
  cases hticker : v.ticker with
  | none =>
    refine iff_of_false (by simp) ?_
    rintro ⟨entry, hentry, hstatus⟩
    rw [hv.paused hticker entry hentry] at hstatus
    obtain ⟨⟨⟩⟩ | ⟨⟨⟩⟩ := hstatus
  | some t =>
    obtain ⟨-, hne, -⟩ := hc.ticker t hticker
    obtain ⟨entry, hentry⟩ := Option.ne_none_iff_exists'.mp hne
    exact iff_of_true (by simp) ⟨entry, hentry, (hatt.ticker t entry hticker hentry).active⟩

end View

namespace Manager

/-- The statuses of a world in the course of a run: that at its start, and that after each move. -/
def statuses (p : Manager) (a : WorldId) : List (Moment × Move) → List (Option Status)
  | [] => [(p.viewOf a).status?]
  | (m, move) :: moves => (p.viewOf a).status? :: (p.apply m move).statuses a moves

/-- No driver of a world breaks down in a run. -/
def exitsWell (p : Manager) (a : WorldId) (moves : List (Moment × Move)) : Bool :=
  p.throughout a (fun _ _ v' => !v'.isBroken) (moves.map fun (m, move) => .move m move)

variable {a : WorldId}

theorem isChain_statuses_cons {p : Manager} {s : Option Status} {moves : List (Moment × Move)}
    (hfirst : StatusMove.OrStays s (p.viewOf a).status?)
    (hrest : (p.statuses a moves).IsChain StatusMove.OrStays) :
    (s :: p.statuses a moves).IsChain StatusMove.OrStays := by
  cases moves with
  | nil => exact List.isChain_cons_cons.mpr ⟨hfirst, hrest⟩
  | cons x moves => exact List.isChain_cons_cons.mpr ⟨hfirst, hrest⟩

theorem isActive_iff {p : Manager} (hp : p.Coherent) (hidle : p.isBusy = false) :
    p.isActive a = true ↔ (p.viewOf a).ticker ≠ none := by
  have hnone := errand_eq_none_of_not_isBusy p a hidle
  cases hticker : p.tickers.get? a with
  | none => simp [isActive, viewOf, hticker]
  | some t =>
    obtain ⟨-, -, -, ⟨-, hstop⟩ | ⟨hjoining, -⟩⟩ := (hp a).ticker t hticker
    · simp [isActive, viewOf, hticker, hstop]
    · simp [hnone] at hjoining

/-- What a run keeps of a world whose drivers do not break down. -/
theorem run_settled {p : Manager} (hp : p.Coherent) (hatt : (p.viewOf a).Attuned a)
    (hsettled : (p.viewOf a).Settled a) (hsound : (p.viewOf a).isBroken = false)
    {moves : List (Moment × Move)} (hown : ∀ x ∈ moves, x.2.isOwn = true)
    (hexits : p.exitsWell a moves = true) :
    (p.run moves).Coherent ∧ ((p.run moves).viewOf a).Attuned a ∧
      ((p.run moves).viewOf a).Settled a ∧ (p.statuses a moves).IsChain StatusMove.OrStays := by
  induction moves generalizing p with
  | nil => exact ⟨hp, hatt, hsettled, List.isChain_singleton _⟩
  | cons x moves ih =>
    obtain ⟨m, move⟩ := x
    rw [List.forall_mem_cons] at hown
    rw [exitsWell, List.map_cons, throughout, Bool.and_eq_true] at hexits
    have hsound' : ((p.apply m move).viewOf a).isBroken = false :=
      (Bool.not_eq_eq_eq_not.mp hexits.1)
    have hstep : ((p.apply m move).viewOf a).Attuned a ∧ ((p.apply m move).viewOf a).Settled a ∧
        StatusMove.OrStays (p.viewOf a).status? ((p.apply m move).viewOf a).status? := by
      obtain heq | hsteps := apply_step hp m hown.1 a
      · rw [heq]
        exact ⟨hatt, hsettled, .inl rfl⟩
      · obtain ⟨hsettled', hmoves⟩ := hsteps.settled (hp a) hatt hsettled hsound
        exact ⟨hsteps.attuned (hp a) hatt, hsettled', hmoves⟩
    obtain ⟨hatt', hsettled', hmoves⟩ := hstep
    obtain ⟨hcoherent, hrest, hend, hchain⟩ :=
      ih (hp.apply m move) hatt' hsettled' hsound' hown.2 hexits.2
    exact ⟨hcoherent, hrest, hend, isChain_statuses_cons hmoves hchain⟩

/-- In every run over any log, whatever appends and reads of it fail, with a registry that nobody
else writes to: as long as no driver of a world breaks down, the world is active between two errands
exactly if its status is that of a clock that runs or catches up, it carries the mark of a pause
exactly while it is paused, and its status moves as spawns, catch-ups and stops move it. -/
theorem lifecycle_of_run (w : Wiring) (log : EventLog) (projections : Option (Dispatcher ReadModel))
    {moves : List (Moment × Move)} (hown : ∀ x ∈ moves, x.2.isOwn = true)
    (hexits : (start w log projections).exitsWell a moves = true) :
    let p := (start w log projections).run moves
    (p.isBusy = false →
      (p.isActive a = true ↔ ∃ entry, p.surroundings.registry.get? a = some entry ∧
        (entry.status = .running ∨ entry.status = .catchingUp))) ∧
    (∀ entry, p.surroundings.registry.get? a = some entry →
      (entry.pausedAt.isSome = true ↔ entry.status = .paused)) ∧
    ((start w log projections).statuses a moves).IsChain StatusMove.OrStays := by
  have hstart := coherent_start w log projections
  obtain ⟨hcoherent, hatt, hsettled, hchain⟩ := run_settled hstart
    (View.attuned_afterDeath ((start w log projections).viewOf a))
    ⟨by rintro - entry ⟨⟩, by rintro ⟨⟩⟩ rfl hown hexits
  refine ⟨fun hidle => ?_, fun entry hentry => ?_, hchain⟩
  · rw [isActive_iff hcoherent hidle]
    exact hsettled.active_iff (hcoherent a) hatt
  · have hmarker := (hcoherent a).markerFits hentry
    rw [World.markerFits, beq_iff_eq] at hmarker
    rw [← hmarker, decide_eq_true_iff]

theorem lifecycle_of_interruptedOnce :
    (∀ x ∈ pausedOnce ⟨⟨0⟩⟩ ++ resumedOnce ⟨⟨0⟩⟩, x.2.isOwn = true) ∧
      (start .standard .empty none).exitsWell ⟨⟨0⟩⟩ (pausedOnce ⟨⟨0⟩⟩ ++ resumedOnce ⟨⟨0⟩⟩) = true ∧
      ((start .standard .empty none).statuses ⟨⟨0⟩⟩
        (pausedOnce ⟨⟨0⟩⟩ ++ resumedOnce ⟨⟨0⟩⟩)).IsChain StatusMove.OrStays := by
  have hown : ∀ x ∈ pausedOnce ⟨⟨0⟩⟩ ++ resumedOnce ⟨⟨0⟩⟩, x.2.isOwn = true := by decide +kernel
  have hexits : (start .standard .empty none).exitsWell ⟨⟨0⟩⟩
      (pausedOnce ⟨⟨0⟩⟩ ++ resumedOnce ⟨⟨0⟩⟩) = true := by decide +kernel
  exact ⟨hown, hexits, (lifecycle_of_run .standard .empty none hown hexits).2.2⟩

end Manager

end WorldClock
