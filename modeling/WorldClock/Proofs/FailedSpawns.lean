import WorldClock.Proofs.Manager.Interference
import WorldClock.Proofs.Stops

/-!
# A spawn that fails changes nothing that matters

A spawn can fail at almost every step: the log cannot be read, cannot be restored from, or refuses
an append. What it has done until then is to register a world that was not in the registry, in the
state that the log gives, and no more (`Manager.Spares`). For once the log has taken its event, what
is left of it cannot fail: the world is still in the registry, or still not, as it was found before,
and the dilation has been accepted (`Manager.IsSpawning`).
-/

namespace WorldClock

/-- What a spawn has found out about the entry of its world. -/
def SpawnStage.expects (entry : Option World) : SpawnStage → Prop
  | .readingHistory | .creating _ => entry = none
  | .readingVersion _ | .announcing _ _ => entry ≠ none

namespace Manager

variable {p q r : Manager} {m : Moment} {order : SpawnOrder} {move : Move}

/-- A spawn is under way, and what it has found out is still so. -/
structure IsSpawning (order : SpawnOrder) (p : Manager) : Prop where
  errand : ∃ stage, p.errand = some (.spawn order stage) ∧
    stage.expects (p.surroundings.registry.get? order.world)
  accepted : order.IsAccepted p.wiring

/-- The log has taken the event that an errand waits for. -/
def hasStored (p : Manager) : Bool := p.filing?.any Filing.isStored

/-- A registry has got one more world, in the state in which the log has it. -/
def Restores (p : Manager) (a : WorldId) (registry : Registry) : Prop :=
  ∃ restored count, p.surroundings.registry.get? a = none ∧
    restore (p.surroundings.log.byAggregate a.text 1) a = .ok (some (restored, count)) ∧
    restored.id = a ∧ restored.status = .paused ∧
    registry = ⟨p.surroundings.registry.table.set a restored⟩

/-- From one process to another no ticker comes or goes, nothing is stored or called, and no entry
of the registry changes. It may get one more entry, the one that the log gives. -/
structure Spares (order : SpawnOrder) (p q : Manager) : Prop where
  tickers : q.tickers = p.tickers
  log : q.surroundings.log = p.surroundings.log
  projections : q.surroundings.projections = p.surroundings.projections
  calls : q.surroundings.calls = p.surroundings.calls
  registry : q.surroundings.registry = p.surroundings.registry ∨
    p.Restores order.world q.surroundings.registry

theorem spares_refl (order : SpawnOrder) (p : Manager) : p.Spares order p :=
  ⟨rfl, rfl, rfl, rfl, .inl rfl⟩

theorem Restores.get?_ne_none {a : WorldId} (h : p.Restores a q.surroundings.registry) :
    q.surroundings.registry.get? a ≠ none := by
  obtain ⟨restored, count, -, -, -, -, hregistry⟩ := h
  rw [hregistry, Registry.get?_set, if_pos rfl]
  exact Option.some_ne_none restored

theorem Spares.trans (h : p.Spares order q) (h' : q.Spares order r) : p.Spares order r where
  tickers := h'.tickers.trans h.tickers
  log := h'.log.trans h.log
  projections := h'.projections.trans h.projections
  calls := h'.calls.trans h.calls
  registry := by
    obtain heq | hrestores := h.registry
    · refine h'.registry.imp (·.trans heq) ?_
      rintro ⟨restored, count, hnone, hrestore, hworld, hstatus, hregistry⟩
      rw [heq] at hnone hregistry
      rw [h.log] at hrestore
      exact ⟨restored, count, hnone, hrestore, hworld, hstatus, hregistry⟩
    · obtain heq | ⟨-, -, hnone, -⟩ := h'.registry
      · exact .inr (heq ▸ hrestores)
      · exact absurd hnone hrestores.get?_ne_none

/-- What a step of a spawn comes to. -/
inductive SpawnStep (order : SpawnOrder) (p q : Manager) : Prop where
  | goesOn (hspawning : q.IsSpawning order) (hstored : p.hasStored = true → q.hasStored = true)
    (hspares : q.hasStored = false → p.Spares order q)
  | fails {e : ManagerError} (hresult : q.errand = some (.over (.error e)))
    (hstored : p.hasStored = false) (hspares : p.Spares order q)
  | succeeds (hresult : q.errand = some (.over (.ok ())))

theorem IsSpawning.stays (h : p.IsSpawning order) : p.SpawnStep order p :=
  .goesOn h id fun _ => spares_refl order p

/-! ### Steps that cannot fail -/

theorem errand_launch (haccepted : order.IsAccepted p.wiring) (version : Count)
    (weatherSyncedAt : Duration) (plan : Option CatchUpPlan) :
    (p.launch order version weatherSyncedAt plan).errand = some (.over (.ok ())) := by
  obtain ⟨delta, hdelta⟩ := Option.isSome_iff_exists.mp haccepted
  simp only [launch, Ticker.new?, hdelta, Option.map_some]
  rfl

theorem errand_takeUp (haccepted : order.IsAccepted p.wiring)
    (hknown : p.surroundings.registry.get? order.world ≠ none) (known : World) (version : Count) :
    (p.takeUp m order known version).errand = some (.over (.ok ())) := by
  obtain ⟨entry, hentry⟩ := Option.ne_none_iff_exists'.mp hknown
  have hupdate := Registry.update_eq _ hentry
    (World.regression?_resumed order (p.planFor m known) entry)
  simp only [takeUp, hupdate]
  refine errand_launch ?_ _ _ _
  exact haccepted

theorem errand_enroll (haccepted : order.IsAccepted p.wiring)
    (hunknown : p.surroundings.registry.get? order.world = none) :
    (p.enroll m order).errand = some (.over (.ok ())) := by
  have hregister : p.surroundings.registry.register
      (World.starting order.world order.name order.dilation m.wall) = .ok _ :=
    Registry.register_eq hunknown
  simp only [enroll, hregister]
  refine errand_launch ?_ _ _ _
  exact haccepted

/-! ### Steps that can fail -/

theorem fails_finish (hstored : p.hasStored = false) (e : ManagerError) :
    p.SpawnStep order (p.finish (.error e)) :=
  .fails rfl hstored ⟨rfl, rfl, rfl, rfl, .inl rfl⟩

theorem goesOn_of_spares (hstored : p.hasStored = false) (hspawning : q.IsSpawning order)
    (hspares : p.Spares order q) : p.SpawnStep order q := by
  refine .goesOn hspawning (fun h => ?_) fun _ => hspares
  rw [hstored] at h
  cases h

/-- Restoring a world ends in an error before anything has been registered, or registers it. -/
theorem restoreFrom_spawnStep (haccepted : order.IsAccepted p.wiring)
    (hunknown : p.surroundings.registry.get? order.world = none) (hstored : p.hasStored = false) :
    p.SpawnStep order
      (p.restoreFrom m order (p.surroundings.log.byAggregate order.world.text 1)) := by
  rw [restoreFrom]
  split
  · exact fails_finish hstored _
  · exact goesOn_of_spares hstored ⟨⟨_, rfl, hunknown⟩, haccepted⟩ ⟨rfl, rfl, rfl, rfl, .inl rfl⟩
  · next restored count hrestore =>
    obtain ⟨t, rfl, hworld⟩ := restore_eq_some hrestore
    have hid : t.toWorld.id = order.world := hworld
    have hregister : p.surroundings.registry.register t.toWorld =
        .ok ⟨p.surroundings.registry.table.set t.toWorld.id t.toWorld⟩ :=
      Registry.register_eq (hid ▸ hunknown)
    simp only [tell, Surroundings.tell, hregister, hid]
    have hself : (⟨p.surroundings.registry.table.set order.world t.toWorld⟩ : Registry).get?
        order.world = some t.toWorld := (Registry.get?_set _ _ _ _).trans (if_pos rfl)
    have hexpects : SpawnStage.expects ((⟨p.surroundings.registry.table.set order.world t.toWorld⟩ :
        Registry).get? order.world) (.readingVersion t.toWorld) := hself ▸ Option.some_ne_none _
    exact goesOn_of_spares hstored ⟨⟨_, rfl, hexpects⟩, haccepted⟩
      ⟨rfl, rfl, rfl, rfl, .inr ⟨t.toWorld, count, hunknown, hrestore, hid, rfl, rfl⟩⟩

theorem announce_spawnStep (haccepted : order.IsAccepted p.wiring)
    (hknown : p.surroundings.registry.get? order.world ≠ none) (hstored : p.hasStored = false)
    (known : World) (version : Count) : p.SpawnStep order (p.announce m order known version) := by
  rw [announce]
  split
  · exact goesOn_of_spares hstored ⟨⟨_, rfl, hknown⟩, haccepted⟩ ⟨rfl, rfl, rfl, rfl, .inl rfl⟩
  · exact .succeeds (errand_takeUp haccepted hknown known version)

theorem read_spawnStep (h : p.IsSpawning order) (failure : Option LogError) :
    p.SpawnStep order (p.read m failure) := by
  obtain ⟨⟨stage, herrand, hexpects⟩, haccepted⟩ := h
  cases stage with
  | creating filing | announcing known filing =>
    have hsame : p.read m failure = p := by simp only [read, herrand]
    rw [hsame]
    exact IsSpawning.stays ⟨⟨_, herrand, hexpects⟩, haccepted⟩
  | readingHistory =>
    have hstored : p.hasStored = false := by
      rw [hasStored, filing?, herrand]
      rfl
    simp only [read, herrand]
    split
    · exact fails_finish hstored _
    · exact restoreFrom_spawnStep haccepted hexpects hstored
  | readingVersion known =>
    have hstored : p.hasStored = false := by
      rw [hasStored, filing?, herrand]
      rfl
    simp only [read, herrand]
    split
    · exact fails_finish hstored _
    · exact announce_spawnStep haccepted hexpects hstored known _

/-- The log changes only when it takes the event. -/
theorem file_keeps (filing : Filing) (log : EventLog) :
    (filing.isStored = true → (filing.file log).1.isStored = true) ∧
      ((filing.file log).1.isStored = false → (filing.file log).2 = log) := by
  rw [Filing.file]
  split
  · exact ⟨id, fun _ => rfl⟩
  · next hverdict =>
    have hnot : filing.isStored = false := by rw [Filing.isStored, hverdict]
    split
    · exact ⟨fun _ => rfl, by rintro ⟨⟩⟩
    · exact ⟨fun h => absurd (hnot.symm.trans h) Bool.false_ne_true, fun _ => rfl⟩

theorem file_spawnStep (h : p.IsSpawning order) : p.SpawnStep order p.file := by
  obtain ⟨⟨stage, herrand, hexpects⟩, haccepted⟩ := h
  cases stage with
  | readingHistory | readingVersion known =>
    have hsame : p.file = p := by simp only [file, herrand]
    rw [hsame]
    exact IsSpawning.stays ⟨⟨_, herrand, hexpects⟩, haccepted⟩
  | creating filing | announcing known filing =>
    obtain ⟨hstays, hspares⟩ := file_keeps filing p.surroundings.log
    rw [file]
    simp only [herrand]
    refine .goesOn ⟨⟨_, rfl, hexpects⟩, haccepted⟩ (fun hstored => ?_) fun hstored =>
      ⟨rfl, hspares hstored, rfl, rfl, .inl rfl⟩
    rw [hasStored, filing?, herrand] at hstored
    exact hstays hstored

/-- What is truly said to have failed is not stored. -/
theorem not_isStored_of_failed {filing : Filing} {reply : Reply LogError} {error : LogError}
    (hfiling : p.filing? = some filing) (htrue : p.misreports (.conclude reply) = false)
    (houtcome : filing.outcome? reply = some (.failed error)) : filing.isStored = false := by
  cases reply with
  | answered =>
    obtain ⟨e, verdict⟩ := filing
    match verdict with
    | none | some (.ok ()) => cases houtcome
    | some (.error error) => rfl
  | failed error =>
    rw [misreports, hfiling] at htrue
    exact htrue
  | timedOut => cases houtcome

theorem conclude_spawnStep_of_filing (h : p.IsSpawning order) {filing : Filing}
    (hfiling : p.filing? = some filing) {reply : Reply LogError}
    (htrue : p.misreports (.conclude reply) = false)
    (hanswered : filing.outcome? reply = some .answered →
      (p.conclude m reply).errand = some (.over (.ok ()))) :
    p.SpawnStep order (p.conclude m reply) := by
  cases houtcome : filing.outcome? reply with
  | none =>
    have hsame : p.conclude m reply = p := by
      simp only [conclude, hfiling, Option.bind_some, houtcome]
    exact hsame.symm ▸ h.stays
  | some outcome =>
    cases outcome with
    | timedOut =>
      have hsame : p.conclude m reply = p := by
        simp only [conclude, hfiling, Option.bind_some, houtcome]
      exact hsame.symm ▸ h.stays
    | failed error =>
      have hnot := not_isStored_of_failed hfiling htrue houtcome
      simp only [conclude, hfiling, Option.bind_some, houtcome]
      exact fails_finish (by rwa [hasStored, hfiling]) _
    | answered => exact .succeeds (hanswered houtcome)

theorem conclude_spawnStep (h : p.IsSpawning order) {reply : Reply LogError}
    (htrue : p.misreports (.conclude reply) = false) :
    p.SpawnStep order (p.conclude m reply) := by
  have hregistry (filing : Filing) : (p.project order.world filing.event).surroundings.registry =
      p.surroundings.registry := Ticker.project_registry _ _ _
  obtain ⟨⟨stage, herrand, hexpects⟩, haccepted⟩ := id h
  cases stage with
  | readingHistory | readingVersion known =>
    have hsame : p.conclude m reply = p := by
      simp only [conclude, filing?, herrand, Option.bind_none]
    exact hsame.symm ▸ h.stays
  | creating filing =>
    have hfiling : p.filing? = some filing := by rw [filing?, herrand]
    refine conclude_spawnStep_of_filing h hfiling htrue fun houtcome => ?_
    simp only [conclude, hfiling, Option.bind_some, houtcome, herrand]
    exact errand_enroll (p := p.project order.world filing.event) haccepted
      (by rwa [hregistry])
  | announcing known filing =>
    have hfiling : p.filing? = some filing := by rw [filing?, herrand]
    refine conclude_spawnStep_of_filing h hfiling htrue fun houtcome => ?_
    simp only [conclude, hfiling, Option.bind_some, houtcome, herrand]
    exact errand_takeUp (p := p.project order.world filing.event) haccepted
      (by rwa [hregistry]) known _

/-- A step of a spawn, unless it is told that an append has failed which the log has taken, goes on
with the spawn, ends it well, or ends it in an error when nothing is stored yet. -/
theorem apply_spawnStep (h : p.IsSpawning order) (herrand : move.isErrand = true)
    (htrue : p.misreports move = false) : p.SpawnStep order (p.apply m move) := by
  obtain ⟨stage, hspawn, -⟩ := h.errand
  have hbusy : p.isBusy = true := by rw [isBusy, hspawn]
  cases move with
  | spawn order' | stop world =>
    rw [apply, if_pos hbusy]
    exact h.stays
  | join =>
    rw [apply, hspawn]
    exact h.stays
  | read failure => exact read_spawnStep h failure
  | file => exact file_spawnStep h
  | conclude reply => exact conclude_spawnStep h htrue
  | poll | answer | fileFor | concludeFor | crash | update => cases herrand

/-! ### What others do meanwhile -/

/-- What a move of a ticker or of someone else leaves of a process: its errand, its active worlds,
and the worlds that are registered. -/
structure Leaves (p q : Manager) : Prop where
  wiring : q.wiring = p.wiring
  errand : q.errand = p.errand
  activeWorlds : q.activeWorlds = p.activeWorlds
  worlds : q.surroundings.registry.worlds = p.surroundings.registry.worlds

/-- A ticker that goes on in its place is active if it was. -/
theorem activeWorlds_setEntry {t t' : Ticker} {b : WorldId} {entries : List (WorldId × Ticker)}
    (hticker : entries.lookup b = some t) (hstop : t'.stop = t.stop) :
    ((WorldTable.setEntry b t' entries).filter fun (_, t) => !t.stop.isRaised).map (·.1) =
      (entries.filter fun (_, t) => !t.stop.isRaised).map (·.1) := by
  induction entries with
  | nil => cases hticker
  | cons entry rest ih =>
    obtain ⟨a, other⟩ := entry
    rw [WorldTable.lookup_cons_entry] at hticker
    rw [WorldTable.setEntry]
    by_cases heq : a = b
    · subst heq
      obtain rfl : other = t := by simpa using hticker
      simp only [if_true, List.filter_cons, hstop]
      cases other.stop.isRaised <;> rfl
    · rw [if_neg (Ne.symm heq)] at hticker
      simp only [if_neg heq, List.filter_cons]
      cases other.stop.isRaised with
      | true => exact ih hticker
      | false => exact congrArg (a :: ·) (ih hticker)

theorem leaves_stepTicker {b : WorldId} {step : Ticker → Surroundings → Ticker × Surroundings}
    (htakes : Ticker.Takes p.wiring m step) : p.Leaves (p.stepTicker b step) := by
  rw [stepTicker]
  cases hticker : p.tickers.get? b with
  | none => exact ⟨rfl, rfl, rfl, rfl⟩
  | some t =>
    obtain ⟨cause, hwrites⟩ := htakes.writes t p.surroundings
    exact ⟨rfl, rfl, activeWorlds_setEntry hticker (htakes.isSame t p.surroundings).stop,
      hwrites.worlds_eq⟩

theorem leaves_apply (hother : move.isErrand = false) : p.Leaves (p.apply m move) := by
  cases move with
  | poll world => exact leaves_stepTicker (m := m) .poll
  | answer world reply => exact leaves_stepTicker (m := m) (.answer reply)
  | fileFor world => exact leaves_stepTicker (m := m) .file
  | concludeFor world reply => exact leaves_stepTicker (m := m) (.conclude reply)
  | crash world culprit => exact leaves_stepTicker (m := m) (.crash culprit)
  | update world change =>
    rw [apply]
    split
    · exact ⟨rfl, rfl, rfl, rfl⟩
    · next hupdate => exact ⟨rfl, rfl, rfl, Registry.worlds_update hupdate⟩
  | spawn | stop | join | read | file | conclude => cases hother

theorem Leaves.isSpawning (h : p.Leaves q) (hp : p.IsSpawning order) : q.IsSpawning order := by
  obtain ⟨⟨stage, herrand, hexpects⟩, haccepted⟩ := hp
  refine ⟨⟨stage, h.errand.trans herrand, ?_⟩, h.wiring ▸ haccepted⟩
  have hiff : q.surroundings.registry.get? order.world = none ↔
      p.surroundings.registry.get? order.world = none := by
    rw [Registry.get?_eq_none_iff, Registry.get?_eq_none_iff, h.worlds]
  cases stage with
  | readingHistory | creating filing => exact hiff.mpr hexpects
  | readingVersion known | announcing known filing => exact mt hiff.mp hexpects

theorem Leaves.hasStored_eq (h : p.Leaves q) : q.hasStored = p.hasStored := by
  rw [hasStored, hasStored, filing?, filing?, h.errand]

/-! ### The whole call -/

/-- What the errand under way comes to at the end of a run, if it is under way until then. -/
def returns? (p : Manager) : List (Moment × Move) → Option (Except ManagerError Unit)
  | [] => p.result?
  | (m, move) :: moves => if p.isBusy then (p.apply m move).returns? moves else none

theorem returns?_of_over {result result' : Except ManagerError Unit}
    (herrand : p.errand = some (.over result)) {moves : List (Moment × Move)}
    (h : p.returns? moves = some result') : moves = [] ∧ result' = result := by
  cases moves with
  | nil =>
    rw [returns?, result?, herrand] at h
    exact ⟨rfl, (Option.some.inj h).symm⟩
  | cons x moves =>
    have hidle : p.isBusy = false := by rw [isBusy, herrand]
    rw [returns?, hidle] at h
    cases h

/-- No append is said to have failed although the log has taken its event. -/
def reportsTruly (p : Manager) : List (Moment × Move) → Bool
  | [] => true
  | (m, move) :: moves => !p.misreports move && (p.apply m move).reportsTruly moves

/-- The steps of errands in a run, each with the process before and after it. -/
def errandSteps (p : Manager) : List (Moment × Move) → List (Manager × Manager)
  | [] => []
  | (m, move) :: moves =>
    (if move.isErrand then [(p, p.apply m move)] else []) ++ (p.apply m move).errandSteps moves

/-- From one process to another the registry has lost no world and got at most the given one. -/
def Gains (p q : Manager) (a : WorldId) : Prop :=
  q.surroundings.registry.worlds = p.surroundings.registry.worlds ∨
    a ∉ p.surroundings.registry.worlds ∧
      q.surroundings.registry.worlds = p.surroundings.registry.worlds ++ [a]

theorem Gains.trans {a : WorldId} (h : p.Gains q a) (h' : q.Gains r a) : p.Gains r a := by
  obtain heq | ⟨hnew, hgain⟩ := h
  · rwa [Gains, heq] at h'
  · obtain heq' | ⟨hnew', -⟩ := h'
    · exact .inr ⟨hnew, heq'.trans hgain⟩
    · exact absurd (hgain ▸ List.mem_append_right _ List.mem_cons_self) hnew'

theorem Spares.gains (h : p.Spares order q) : p.Gains q order.world := by
  obtain heq | ⟨restored, count, hnone, -, -, -, hregistry⟩ := h.registry
  · exact .inl (congrArg Registry.worlds heq)
  · have hnew := Registry.get?_eq_none_iff.mp hnone
    refine .inr ⟨hnew, ?_⟩
    rw [hregistry]
    exact (WorldTable.map_setEntry _ _ _).trans (if_neg hnew)

/-- A call that leaves no traces but the entry of a restored world. -/
structure Fails (order : SpawnOrder) (p q : Manager) (moves : List (Moment × Move)) : Prop where
  steps : ∀ step ∈ p.errandSteps moves, step.1.Spares order step.2
  activeWorlds : q.activeWorlds = p.activeWorlds
  gains : p.Gains q order.world
  alone : (∀ x ∈ moves, x.2.isErrand = true) → p.Spares order q

theorem fails_nil (order : SpawnOrder) (p : Manager) : p.Fails order p [] :=
  ⟨by rintro step ⟨⟩, rfl, .inl rfl, fun _ => spares_refl order p⟩

theorem Fails.cons_errand {moves : List (Moment × Move)} (hspares : p.Spares order (p.apply m move))
    (herrand : move.isErrand = true) (h : (p.apply m move).Fails order q moves) :
    p.Fails order q ((m, move) :: moves) where
  steps step hstep := by
    rw [errandSteps, if_pos herrand] at hstep
    obtain rfl | hstep := List.mem_cons.mp hstep
    · exact hspares
    · exact h.steps step hstep
  activeWorlds := h.activeWorlds.trans (by rw [Manager.activeWorlds, hspares.tickers]; rfl)
  gains := hspares.gains.trans h.gains
  alone hall := hspares.trans (h.alone fun x hx => hall x (List.mem_cons_of_mem _ hx))

theorem Fails.cons_other {moves : List (Moment × Move)} (hleaves : p.Leaves (p.apply m move))
    (hother : move.isErrand = false) (h : (p.apply m move).Fails order q moves) :
    p.Fails order q ((m, move) :: moves) where
  steps step hstep := by
    rw [errandSteps, hother] at hstep
    exact h.steps step hstep
  activeWorlds := h.activeWorlds.trans hleaves.activeWorlds
  gains := Gains.trans (.inl hleaves.worlds) h.gains
  alone hall := absurd ((hall (m, move) List.mem_cons_self).symm.trans hother) (by decide)

/-- A spawn that is under way and comes to an error has stored nothing so far, and leaves nothing
behind from here on. -/
theorem IsSpawning.fails (h : p.IsSpawning order) {moves : List (Moment × Move)} {e : ManagerError}
    (hfails : p.returns? moves = some (.error e)) (htrue : p.reportsTruly moves = true) :
    p.hasStored = false ∧ p.Fails order (p.run moves) moves := by
  induction moves generalizing p with
  | nil =>
    obtain ⟨stage, herrand, -⟩ := h.errand
    rw [returns?, result?, herrand] at hfails
    cases hfails
  | cons x moves ih =>
    obtain ⟨m, move⟩ := x
    obtain ⟨hmove, hmoves⟩ := Bool.and_eq_true_iff.mp htrue
    have hmove : p.misreports move = false := by simpa using hmove
    obtain ⟨-, hreturns⟩ := Option.ite_none_right_eq_some.mp hfails
    change _ ∧ p.Fails order ((p.apply m move).run moves) _
    cases herrand : move.isErrand with
    | false =>
      have hleaves : p.Leaves (p.apply m move) := leaves_apply herrand
      obtain ⟨hstored, hrest⟩ := ih (hleaves.isSpawning h) hreturns hmoves
      exact ⟨hleaves.hasStored_eq ▸ hstored, hrest.cons_other hleaves herrand⟩
    | true =>
      cases apply_spawnStep (m := m) h herrand hmove with
      | goesOn hspawning hstays hspares =>
        obtain ⟨hstored, hrest⟩ := ih hspawning hreturns hmoves
        refine ⟨?_, hrest.cons_errand (hspares hstored) herrand⟩
        exact Bool.eq_false_iff.mpr fun hp => Bool.eq_false_iff.mp hstored (hstays hp)
      | fails hresult hstored hspares =>
        obtain ⟨rfl, -⟩ := returns?_of_over hresult hreturns
        exact ⟨hstored, (fails_nil order _).cons_errand hspares herrand⟩
      | succeeds hresult => cases (returns?_of_over hresult hreturns).2

theorem beginSpawn_spawnStep (p : Manager) (order : SpawnOrder) :
    (∃ e, (p.beginSpawn order).errand = some (.over (.error e))) ∧
        p.Spares order (p.beginSpawn order) ∨
      (p.beginSpawn order).IsSpawning order ∧ p.Spares order (p.beginSpawn order) := by
  have hspares {result : Option Errand} : p.Spares order { p with errand := result } :=
    ⟨rfl, rfl, rfl, rfl, .inl rfl⟩
  rw [beginSpawn]
  split
  · exact .inl ⟨⟨_, rfl⟩, hspares⟩
  split
  · exact .inl ⟨⟨_, rfl⟩, hspares⟩
  next hdilation =>
  have haccepted : order.IsAccepted p.wiring :=
    Option.isSome_iff_ne_none.mpr (by simpa using hdilation)
  split
  · next known hknown =>
    rw [resume]
    split
    · exact .inl ⟨⟨_, rfl⟩, hspares⟩
    · refine .inr ⟨⟨⟨_, rfl, ?_⟩, haccepted⟩, hspares⟩
      exact ne_of_eq_of_ne hknown (Option.some_ne_none known)
  · next hunknown => exact .inr ⟨⟨⟨_, rfl, hunknown⟩, haccepted⟩, hspares⟩

/-- In whatever state a process is, whatever a spawn is asked for, whatever the log fails at and
whatever happens meanwhile: if the spawn returns an error, none of its steps has started or ended a
ticker, stored an event, made a call or changed the entry of a registered world; the active worlds
are those from before; and the registry has got at most one entry, the paused state that restoring
the world from the log gives. A run in which only the spawn goes on shows no other difference. -/
theorem failed_spawn_spares (p : Manager) (hidle : p.isBusy = false) (m : Moment)
    (order : SpawnOrder) (moves : List (Moment × Move)) (e : ManagerError)
    (hfails : (p.apply m (.spawn order)).returns? moves = some (.error e))
    (htrue : (p.apply m (.spawn order)).reportsTruly moves = true) :
    let q := (p.apply m (.spawn order)).run moves
    (∀ step ∈ p.errandSteps ((m, .spawn order) :: moves), step.1.Spares order step.2) ∧
      q.activeWorlds = p.activeWorlds ∧ p.Gains q order.world ∧
      ((∀ x ∈ moves, x.2.isErrand = true) → p.Spares order q) := by
  have hbegins : p.apply m (.spawn order) = p.beginSpawn order := if_neg (by simp [hidle])
  have hcall : p.Spares order (p.apply m (.spawn order)) ∧
      (p.apply m (.spawn order)).Fails order ((p.apply m (.spawn order)).run moves) moves := by
    rw [hbegins] at hfails htrue ⊢
    obtain ⟨⟨e', herror⟩, hspares⟩ | ⟨hspawning, hspares⟩ := beginSpawn_spawnStep p order
    · obtain ⟨rfl, -⟩ := returns?_of_over herror hfails
      exact ⟨hspares, fails_nil order _⟩
    · exact ⟨hspares, (hspawning.fails hfails htrue).2⟩
  obtain ⟨hsteps, hactive, hgains, halone⟩ := hcall.2.cons_errand hcall.1 rfl
  refine ⟨hsteps, hactive, hgains, fun hall => halone fun x hx => ?_⟩
  obtain rfl | hx := List.mem_cons.mp hx
  · rfl
  · exact hall x hx

/-- A world is created, and its process dies. -/
def orphanedOnce (world : WorldId) : List Incident :=
  ((pausedOnce world).take 4).map (fun (m, move) => .move m move) ++ [.death .standard none]

/-- It is restored from the log and registered, but then the append of its event fails. -/
def refusedOnce : List (Moment × Move) :=
  [(momentAt 350, .read none), (momentAt 350, .read none),
    (momentAt 350, .conclude (.failed (.backend "disk full")))]

theorem failed_spawn_spares_of_refusedOnce :
    let p := (start .standard .empty none).live (orphanedOnce ⟨⟨0⟩⟩)
    let q := (p.apply (momentAt 350) (.spawn ⟨⟨⟨0⟩⟩, "world", .one⟩)).run refusedOnce
    p.Spares ⟨⟨⟨0⟩⟩, "world", .one⟩ q ∧ p.surroundings.registry.worlds = [] ∧
      q.surroundings.registry.worlds = [⟨⟨0⟩⟩] := by
  -- One computation, so that the world is restored only once.
  have hchecked :
      let p := (start .standard .empty none).live (orphanedOnce ⟨⟨0⟩⟩)
      let call := p.apply (momentAt 350) (.spawn ⟨⟨⟨0⟩⟩, "world", .one⟩)
      p.isBusy = false ∧ p.surroundings.registry.worlds = [] ∧
        call.returns? refusedOnce = some (.error (.log (.backend "disk full"))) ∧
        call.reportsTruly refusedOnce = true ∧
        (call.run refusedOnce).surroundings.registry.worlds = [⟨⟨0⟩⟩] := by
    decide +kernel
  obtain ⟨hidle, hbefore, hfails, htrue, hafter⟩ := hchecked
  have hcall := failed_spawn_spares _ hidle _ _ refusedOnce _ hfails htrue
  exact ⟨hcall.2.2.2 (by decide), hbefore, hafter⟩

end Manager

end WorldClock
