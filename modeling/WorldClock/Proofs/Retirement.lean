import WorldClock.Proofs.Manager.Courses

/-!
# Retired worlds

A world is retired from outside, by an update of its status, and a spawn refuses it from then on.
But a spawn looks at the status once, before it waits for the log, and a stop does not look at it
at all: what either writes in the end, it writes over a status that may have changed meanwhile
(`View.overwrites`). So a retired world stays retired, and without a new ticker, exactly as long as
no move is of this kind (`Manager.retired_iff`), and in any case if nothing was under way when it
was retired (`Manager.retired_at_rest`).
-/

namespace WorldClock

def Phase.isFinished : Phase → Bool
  | .finished _ => true
  | _ => false

/-- No step of a ticker retires a world or brings it back. -/
theorem Ticker.Goes.stopped_iff {w : Wiring} {m : Moment} {t t' : Ticker} {entry entry' : World}
    (h : t.Goes w m entry t' entry') : entry'.status = .stopped ↔ entry.status = .stopped := by
  cases h with
  | complete =>
    rw [markRunning]
    split
    · next hstatus => simp [hstatus]
    · exact Iff.rfl
  | _ => exact Iff.rfl

namespace View

/-- Whether a move writes a status without a look at the one it replaces: that of a stop whose
ticker is over, or that of a spawn after its wait for the log. -/
def overwrites (w : Wiring) (v : View) : Move → Bool
  | .join =>
    match v.errand, v.ticker with
    | some (.stop _ .joining), some t => t.phase.isFinished
    | _, _ => false
  | .read none =>
    match v.errand with
    | some (.stop _ .readingVersion) => true
    | some (.spawn _ (.readingVersion _)) => !w.clock.announceResume
    | _ => false
  | .conclude reply =>
    match v.errand with
    | some (.spawn _ (.announcing _ filing)) => decide (filing.outcome? reply = some .answered)
    | _ => false
  | _ => false

def isRetired (v : View) : Bool := v.entry.any fun world => decide (world.status = .stopped)

def starts (v v' : View) : Bool := v.ticker.isNone && v'.ticker.isSome

variable {w : Wiring} {m : Moment} {a : WorldId} {v v' : View}

theorem isRetired_iff :
    v.isRetired = true ↔ ∃ world, v.entry = some world ∧ world.status = .stopped := by
  rw [isRetired, Option.any_eq_true]
  simp only [decide_eq_true_iff]

/-- A world stays retired, and no ticker of it starts. -/
structure StaysRetired (v v' : View) : Prop where
  retired : v'.isRetired = true
  starts : v.starts v' = false

theorem isRetired_of_entry_eq (hretired : v.isRetired = true) (hentry : v'.entry = v.entry) :
    v'.isRetired = true := by
  rw [isRetired, hentry, ← isRetired, hretired]

theorem staysRetired_of_eq (hretired : v.isRetired = true) (hentry : v'.entry = v.entry)
    (hticker : v'.ticker = v.ticker) : v.StaysRetired v' where
  retired := isRetired_of_entry_eq hretired hentry
  starts := by
    rw [View.starts, hticker]
    cases v.ticker <;> rfl

theorem staysRetired_of_ticker (hretired : v'.isRetired = true) {t : Ticker}
    (hticker : v.ticker = some t) : v.StaysRetired v' where
  retired := hretired
  starts := by rw [View.starts, hticker, Option.isNone_some, Bool.false_and]

/-- A step leaves a retired world as it is, unless an errand under way goes on. -/
theorem Step.staysRetired (h : v.Step w m a v') (hretired : v.isRetired = true)
    (hsame : v.errand = none ∨ v'.errand = v.errand) : v.StaysRetired v' := by
  cases h with
  | askKnown | askUnknown | create | announce | fileCreation | fileAnnouncement | filePause
  | giveUp => exact staysRetired_of_eq hretired rfl rfl
  | askStop herrand hticker =>
    exact staysRetired_of_ticker (isRetired_of_entry_eq hretired rfl) hticker
  | goes hticker hentry hgoes =>
    refine staysRetired_of_ticker ?_ hticker
    obtain ⟨entry, hsome, hstatus⟩ := isRetired_iff.mp hretired
    obtain rfl := Option.some.inj (hentry.symm.trans hsome)
    exact isRetired_iff.mpr ⟨_, rfl, hgoes.stopped_iff.mpr hstatus⟩
  | fileTick hticker | fileResumption hticker =>
    exact staysRetired_of_ticker (isRetired_of_entry_eq hretired rfl) hticker
  | restore herrand | takeUp herrand | takeUpAnnounced herrand | enroll herrand | pause herrand
  | breakDown herrand | pauseBroken herrand =>
    rw [herrand] at hsame
    obtain ⟨⟨⟩⟩ | ⟨⟨⟩⟩ := hsame

/-- A step does nothing to a retired world that has neither a ticker nor an errand. -/
theorem Step.not_at_rest (h : v.Step w m a v') (hretired : v.isRetired = true)
    (hticker : v.ticker = none) : v.errand ≠ none := by
  obtain ⟨world, hworld, hstopped⟩ := isRetired_iff.mp hretired
  intro hidle
  cases h with
  | askKnown _ _ _ hentry _ hstatus =>
    obtain rfl := Option.some.inj (hentry.symm.trans hworld)
    exact hstatus hstopped
  | askUnknown _ _ _ hentry =>
    rw [hworld] at hentry
    cases hentry
  | askStop _ hsome | goes hsome | fileTick hsome | fileResumption hsome =>
    rw [hticker] at hsome
    cases hsome
  | create herrand | restore herrand | announce herrand | takeUp herrand | takeUpAnnounced herrand
  | enroll herrand | fileCreation herrand | fileAnnouncement herrand | filePause herrand
  | giveUp herrand | pause herrand | breakDown herrand | pauseBroken herrand =>
    rw [hidle] at herrand
    cases herrand

/-- The world is known and not retired. -/
def Serves (v : View) : Prop := ∃ world, v.entry = some world ∧ world.status ≠ .stopped

theorem Serves.isRetired_eq (h : v.Serves) : v.isRetired = false := by
  obtain ⟨world, hentry, hstatus⟩ := h
  rw [isRetired, hentry, Option.any_some, decide_eq_false hstatus]

theorem status_resumed_ne_stopped (order : SpawnOrder) (plan : Option CatchUpPlan) (world : World) :
    (Manager.resumed order plan world).status ≠ .stopped := by
  rw [Manager.resumed]
  split <;> rintro ⟨⟩

theorem Step.serves (h : v.Step w m a v') (hserves : v.Serves) : v'.Serves := by
  cases h with
  | restore => exact ⟨_, rfl, by rintro ⟨⟩⟩
  | takeUp | takeUpAnnounced => exact ⟨_, rfl, status_resumed_ne_stopped _ _ _⟩
  | enroll => exact ⟨_, rfl, by rintro ⟨⟩⟩
  | pause | pauseBroken => exact ⟨_, rfl, by rintro ⟨⟩⟩
  | goes hticker hentry hgoes =>
    obtain ⟨entry, hsome, hstatus⟩ := hserves
    obtain rfl := Option.some.inj (hentry.symm.trans hsome)
    exact ⟨_, rfl, mt hgoes.stopped_iff.mp hstatus⟩
  | _ => exact hserves

end View

namespace Manager

variable {p : Manager} {m : Moment} {a : WorldId}

theorem errand_of_viewOf {errand : Errand} (h : (p.viewOf a).errand = some errand) :
    p.errand = some errand ∧ errand.world? = some a := by
  obtain ⟨hsome, hworld⟩ := Option.filter_eq_some_iff.mp h
  exact ⟨hsome, of_decide_eq_true hworld⟩

theorem entry_ne_none_of_isRetired (hretired : (p.viewOf a).isRetired = true) :
    (p.viewOf a).entry ≠ none := by
  obtain ⟨world, hentry, -⟩ := View.isRetired_iff.mp hretired
  exact Option.ne_none_iff_exists'.mpr ⟨world, hentry⟩

theorem file_leaves (p : Manager) :
    p.file.surroundings.registry = p.surroundings.registry ∧ p.file.tickers = p.tickers := by
  rw [file]
  split <;> exact ⟨rfl, rfl⟩

theorem staysRetired_join (hretired : (p.viewOf a).isRetired = true)
    (hover : (p.viewOf a).overwrites p.wiring .join = false)
    (hview : (p.viewOf a).errand = some (.stop a .joining)) :
    (p.viewOf a).StaysRetired ((p.join m a).viewOf a) := by
  rw [join]
  split
  · exact View.staysRetired_of_eq hretired rfl rfl
  next t hticker =>
  have hticker' : (p.viewOf a).ticker = some t := hticker
  split
  · next pending hphase =>
    simp [View.overwrites, hview, hticker', hphase, Phase.isFinished] at hover
  · exact View.staysRetired_of_ticker (View.isRetired_of_entry_eq hretired rfl) hticker'
  · exact View.staysRetired_of_eq hretired rfl rfl

theorem staysRetired_read (hp : p.Coherent) (hretired : (p.viewOf a).isRetired = true)
    {failure : Option LogError} (hover : (p.viewOf a).overwrites p.wiring (.read failure) = false)
    {errand : Errand} (hview : (p.viewOf a).errand = some errand) :
    (p.viewOf a).StaysRetired ((p.read m failure).viewOf a) := by
  obtain ⟨herrand, -⟩ := errand_of_viewOf hview
  have hsupports := (hp a).errand errand hview
  rw [read]
  split
  · next order hreading =>
    obtain rfl := Option.some.inj (herrand.symm.trans hreading)
    exact absurd hsupports.2.2.2 (entry_ne_none_of_isRetired hretired)
  · next order known hreading =>
    obtain rfl := Option.some.inj (herrand.symm.trans hreading)
    cases failure with
    | some error => exact View.staysRetired_of_eq hretired rfl rfl
    | none =>
      have hannounce : p.wiring.clock.announceResume = true := by
        simpa [View.overwrites, hview] using hover
      simp only [announce, if_pos hannounce]
      exact View.staysRetired_of_eq hretired rfl rfl
  · next world hreading =>
    obtain rfl := Option.some.inj (herrand.symm.trans hreading)
    cases failure with
    | some error => exact View.staysRetired_of_eq hretired rfl rfl
    | none => simp [View.overwrites, hview] at hover
  · exact View.staysRetired_of_eq hretired rfl rfl

theorem staysRetired_conclude (hp : p.Coherent) (hretired : (p.viewOf a).isRetired = true)
    {reply : Reply LogError}
    (hover : (p.viewOf a).overwrites p.wiring (.conclude reply) = false) {errand : Errand}
    (hview : (p.viewOf a).errand = some errand) :
    (p.viewOf a).StaysRetired ((p.conclude m reply).viewOf a) := by
  obtain ⟨herrand, -⟩ := errand_of_viewOf hview
  have hsupports := (hp a).errand errand hview
  rw [conclude]
  split
  · exact View.staysRetired_of_eq hretired rfl rfl
  · exact View.staysRetired_of_eq hretired rfl rfl
  · exact View.staysRetired_of_eq hretired rfl rfl
  next houtcome =>
  split
  · next order filing hcreating =>
    obtain rfl := Option.some.inj (herrand.symm.trans hcreating)
    exact absurd hsupports.2.2.2.1 (entry_ne_none_of_isRetired hretired)
  · next order known filing hannouncing =>
    obtain rfl := Option.some.inj (herrand.symm.trans hannouncing)
    rw [filing?, hannouncing, Option.bind_some] at houtcome
    simp [View.overwrites, hview, houtcome] at hover
  · next world filing known pending hrecording =>
    rw [viewOf_finish, viewOf_tell, viewOf_project]
    exact View.staysRetired_of_eq hretired rfl rfl
  · exact View.staysRetired_of_eq hretired rfl rfl

/-- A retired world stays retired as long as no errand writes its status over. -/
theorem staysRetired_apply (hp : p.Coherent) {move : Move} (hown : move.isOwn = true)
    (hretired : (p.viewOf a).isRetired = true)
    (hover : (p.viewOf a).overwrites p.wiring move = false) :
    (p.viewOf a).StaysRetired ((p.apply m move).viewOf a) := by
  -- Every step that could bring the world back ends an errand or takes it to another stage.
  have hunless (hsame : (p.viewOf a).errand = none ∨
      ((p.apply m move).viewOf a).errand = (p.viewOf a).errand) :
      (p.viewOf a).StaysRetired ((p.apply m move).viewOf a) := by
    obtain heq | hsteps := apply_step hp m hown a
    · rw [heq]
      exact View.staysRetired_of_eq hretired rfl rfl
    · exact hsteps.staysRetired hretired hsame
  cases hview : (p.viewOf a).errand with
  | none => exact hunless (.inl hview)
  | some errand =>
    obtain ⟨herrand, hworld⟩ := errand_of_viewOf hview
    cases move with
    | spawn order | stop world =>
      have hbusy : p.isBusy = true := by
        cases errand with
        | spawn | stop => rw [isBusy, herrand]
        | _ => cases hworld
      rw [apply, if_pos hbusy]
      exact View.staysRetired_of_eq hretired rfl rfl
    | join =>
      rw [apply]
      split
      · next b hjoining =>
        obtain rfl := Option.some.inj (herrand.symm.trans hjoining)
        obtain rfl := Option.some.inj hworld
        exact staysRetired_join hretired hover hview
      · exact View.staysRetired_of_eq hretired rfl rfl
    | read failure => exact staysRetired_read hp hretired hover hview
    | file =>
      obtain ⟨hregistry, htickers⟩ := file_leaves p
      exact View.staysRetired_of_eq hretired (congrArg (·.get? a) hregistry)
        (congrArg (·.get? a) htickers)
    | conclude reply => exact staysRetired_conclude hp hretired hover hview
    | poll | answer | fileFor | concludeFor | crash =>
      refine hunless (.inr ?_)
      rw [viewOf, viewOf, apply, errand_stepTicker]
    | update world change => cases hown

/-! ### What is written over -/

theorem serves_pause (hknown : p.surroundings.registry.get? a ≠ none) (version pending : Count) :
    ((p.pause m a version pending).viewOf a).Serves := by
  obtain ⟨entry, hentry⟩ := Option.ne_none_iff_exists'.mp hknown
  have hupdate := Registry.update_eq
    (World.paused (m.wall.backDated p.wiring.clock.tickInterval pending)) hentry
    (World.regression?_paused entry _)
  rw [pause]
  simp only [hupdate]
  refine ⟨_, (Registry.get?_set _ _ _ _).trans (if_pos rfl), ?_⟩
  rintro ⟨⟩

theorem launch_registry (p : Manager) (order : SpawnOrder) (version : Count)
    (weatherSyncedAt : Duration) (plan : Option CatchUpPlan) :
    (p.launch order version weatherSyncedAt plan).surroundings.registry =
      p.surroundings.registry := by
  rw [launch]
  split <;> rfl

theorem serves_takeUp {order : SpawnOrder}
    (hknown : p.surroundings.registry.get? order.world ≠ none) (known : World) (version : Count) :
    ((p.takeUp m order known version).viewOf order.world).Serves := by
  obtain ⟨entry, hentry⟩ := Option.ne_none_iff_exists'.mp hknown
  have hupdate := Registry.update_eq _ hentry (World.regression?_resumed order
    (p.planFor m known) entry)
  rw [takeUp]
  simp only [hupdate]
  refine ⟨_, ?_, View.status_resumed_ne_stopped order (p.planFor m known) entry⟩
  rw [viewOf, launch_registry]
  exact (Registry.get?_set _ _ _ _).trans (if_pos rfl)

/-- What writes a status over brings a retired world back. -/
theorem serves_of_overwrites (hp : p.Coherent) {move : Move}
    (hover : (p.viewOf a).overwrites p.wiring move = true) :
    ((p.apply m move).viewOf a).Serves := by
  cases move with
  | join =>
    rw [View.overwrites] at hover
    split at hover
    · next b t hview hticker =>
      obtain ⟨herrand, hworld⟩ := errand_of_viewOf hview
      obtain rfl : b = a := Option.some.inj hworld
      have hticker' : p.tickers.get? b = some t := hticker
      cases hphase : t.phase with
      | finished pending =>
        simp only [apply, herrand, join, hticker', hphase]
        refine serves_pause ?_ _ _
        exact ((hp b).errand _ hview).2.1
      | _ =>
        rw [hphase] at hover
        cases hover
    · cases hover
  | read failure =>
    rw [View.overwrites.eq_def] at hover
    cases failure with
    | some error => cases hover
    | none =>
      simp only at hover
      split at hover
      · next b hview =>
        obtain ⟨herrand, hworld⟩ := errand_of_viewOf hview
        obtain rfl : b = a := Option.some.inj hworld
        simp only [apply, read, herrand]
        exact serves_pause ((hp b).errand _ hview).2.1 _ _
      · next order known hview =>
        obtain ⟨herrand, hworld⟩ := errand_of_viewOf hview
        obtain rfl : order.world = a := Option.some.inj hworld
        have hannounce : p.wiring.clock.announceResume = false := by simpa using hover
        simp only [apply, read, herrand, announce, hannounce]
        exact serves_takeUp ((hp order.world).errand _ hview).2.2.2 _ _
      · cases hover
  | conclude reply =>
    rw [View.overwrites.eq_def] at hover
    simp only at hover
    split at hover
    · next order known filing hview =>
      obtain ⟨herrand, hworld⟩ := errand_of_viewOf hview
      obtain rfl : order.world = a := Option.some.inj hworld
      have houtcome : filing.outcome? reply = some .answered := of_decide_eq_true hover
      have hregistry : (p.project order.world filing.event).surroundings.registry =
          p.surroundings.registry := Ticker.project_registry _ _ _
      simp only [apply, conclude, filing?, herrand, Option.bind_some, houtcome]
      refine serves_takeUp ?_ _ _
      rw [hregistry]
      exact ((hp order.world).errand _ hview).2.2.2.1
    · cases hover
  | _ => cases hover

/-! ### Runs -/

/-- Whether some move of a run writes the status of a world over. -/
def overwrites (p : Manager) (a : WorldId) : List (Moment × Move) → Bool
  | [] => false
  | (m, move) :: moves =>
    (p.viewOf a).overwrites p.wiring move || (p.apply m move).overwrites a moves

/-- Whether a ticker of a world starts in a run. -/
def starts (p : Manager) (a : WorldId) : List (Moment × Move) → Bool
  | [] => false
  | (m, move) :: moves =>
    (p.viewOf a).starts ((p.apply m move).viewOf a) || (p.apply m move).starts a moves

theorem serves_run (hp : p.Coherent) {moves : List (Moment × Move)}
    (hown : ∀ x ∈ moves, x.2.isOwn = true) (hserves : (p.viewOf a).Serves) :
    ((p.run moves).viewOf a).Serves := by
  induction moves generalizing p with
  | nil => exact hserves
  | cons x moves ih =>
    obtain ⟨m, move⟩ := x
    have hfirst : move.isOwn = true := hown (m, move) List.mem_cons_self
    refine ih (hp.apply m move) (fun y hy => hown y (List.mem_cons_of_mem _ hy)) ?_
    obtain heq | hsteps := apply_step hp m hfirst a
    · exact heq ▸ hserves
    · exact hsteps.serves hserves

theorem retired_run_iff (hp : p.Coherent) {moves : List (Moment × Move)}
    (hown : ∀ x ∈ moves, x.2.isOwn = true) (hretired : (p.viewOf a).isRetired = true) :
    ((p.run moves).viewOf a).isRetired = true ∧ p.starts a moves = false ↔
      p.overwrites a moves = false := by
  induction moves generalizing p with
  | nil => exact ⟨fun _ => rfl, fun _ => ⟨hretired, rfl⟩⟩
  | cons x moves ih =>
    obtain ⟨m, move⟩ := x
    have hfirst : move.isOwn = true := hown (m, move) List.mem_cons_self
    have hrest : ∀ y ∈ moves, y.2.isOwn = true := fun y hy => hown y (List.mem_cons_of_mem _ hy)
    change (((p.apply m move).run moves).viewOf a).isRetired = true ∧ _ ↔ _
    rw [starts, overwrites]
    cases hover : (p.viewOf a).overwrites p.wiring move with
    | false =>
      have hstays := staysRetired_apply (m := m) hp hfirst hretired hover
      rw [hstays.starts, Bool.false_or, Bool.false_or]
      exact ih (hp.apply m move) hrest hstays.retired
    | true =>
      have hserves := serves_run (hp.apply m move) hrest (serves_of_overwrites (m := m) hp hover)
      rw [hserves.isRetired_eq]
      exact ⟨fun h => (nomatch h.1), fun h => (nomatch h)⟩

/-- A world that is retired, at whatever moment, stays retired and gets no new ticker exactly as
long as no errand writes its status over. -/
theorem retired_iff (w : Wiring) (log : EventLog) (projections : Option (Dispatcher ReadModel))
    (course : List Incident) (a : WorldId)
    (hretired : (((start w log projections).live course).viewOf a).isRetired = true)
    {moves : List (Moment × Move)} (hown : ∀ x ∈ moves, x.2.isOwn = true) :
    let p := (start w log projections).live course
    ((p.run moves).viewOf a).isRetired = true ∧ p.starts a moves = false ↔
      p.overwrites a moves = false :=
  retired_run_iff ((coherent_start w log projections).live course) hown hretired

/-- A world is created and starts ticking; it is retired from outside while its ticker runs. -/
def retiredOnce (world : WorldId) : List Incident :=
  ((pausedOnce world).take 6).map (fun (m, move) => .move m move) ++
    [.move (momentAt 110) (.update world fun entry => { entry with status := .stopped })]

/-- It ticks once more, and then it is stopped. -/
def ticksAndStops (world : WorldId) : List (Moment × Move) :=
  [(momentAt 110, .fileFor world), (momentAt 110, .concludeFor world .answered),
    (momentAt 200, .poll world), (momentAt 200, .fileFor world),
    (momentAt 200, .concludeFor world .answered), (momentAt 220, .stop world),
    (momentAt 220, .poll world), (momentAt 220, .join)]

theorem retired_iff_of_retiredOnce :
    let p := (start .standard .empty none).live (retiredOnce ⟨⟨0⟩⟩)
    (((p.run ((ticksAndStops ⟨⟨0⟩⟩).take 7)).viewOf ⟨⟨0⟩⟩).isRetired = true ∧
        p.starts ⟨⟨0⟩⟩ ((ticksAndStops ⟨⟨0⟩⟩).take 7) = false) ∧
      ¬(((p.run (ticksAndStops ⟨⟨0⟩⟩)).viewOf ⟨⟨0⟩⟩).isRetired = true ∧
        p.starts ⟨⟨0⟩⟩ (ticksAndStops ⟨⟨0⟩⟩) = false) := by
  have hretired : (((start .standard .empty none).live (retiredOnce ⟨⟨0⟩⟩)).viewOf
      ⟨⟨0⟩⟩).isRetired = true := by decide +kernel
  refine ⟨(retired_iff _ _ _ _ _ hretired ?_).mpr (by decide +kernel),
    fun h => nomatch ((retired_iff _ _ _ _ _ hretired ?_).mp h).symm.trans
      (by decide +kernel : _ = true)⟩
  · decide
  · decide

/-- Nothing happens any more to a world that was retired when it had neither a ticker nor an
errand. -/
theorem retired_at_rest (hp : p.Coherent) (hretired : (p.viewOf a).isRetired = true)
    (hticker : (p.viewOf a).ticker = none) (hidle : (p.viewOf a).errand = none)
    {moves : List (Moment × Move)} (hown : ∀ x ∈ moves, x.2.isOwn = true) :
    (p.run moves).viewOf a = p.viewOf a := by
  induction moves generalizing p with
  | nil => rfl
  | cons x moves ih =>
    obtain ⟨m, move⟩ := x
    obtain heq | hsteps := apply_step hp m (hown (m, move) List.mem_cons_self) a
    · rw [← heq] at hretired hticker hidle ⊢
      exact ih (hp.apply m move) hretired hticker hidle
        fun y hy => hown y (List.mem_cons_of_mem _ hy)
    · exact absurd hidle (hsteps.not_at_rest hretired hticker)

end Manager

end WorldClock
