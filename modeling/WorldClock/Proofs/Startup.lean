import Mathlib.Data.List.Induction
import WorldClock.Engine.Run
import WorldClock.Proofs.Noninterference

/-!
# Starting an engine

Settings are checked one value at a time, and spawns are checked one by one. So an engine whose
settings are in order may still refuse to start: the first world that is listed twice, or whose
dilation makes a tick longer than its nanoseconds can be counted, ends it. Nothing else does
(`EngineStep.starts_if_spawnable`).
-/

namespace WorldClock

/-- Worlds that can be spawned one after another: none is listed twice, and the nanoseconds of each
tick can be counted. -/
structure WorldSettings.Spawnable (interval : Duration) (worlds : List WorldSettings) : Prop where
  nodup : (worlds.map (·.id)).Nodup
  ticks : ∀ w ∈ worlds, (ClockSettings.tickDelta? interval w.dilation).isSome = true

/-- Why a world cannot be spawned after others, each of them once. -/
inductive WorldSettings.Fails (interval : Duration) (before : List WorldSettings)
    (world : WorldSettings) : ManagerError → Prop where
  | again (hlisted : world.id ∈ before.map (·.id)) : Fails interval before world
    (.alreadyRunning world.id)
  | tick (hnew : world.id ∉ before.map (·.id))
    (htick : ClockSettings.tickDelta? interval world.dilation = none) : Fails interval before world
    (.invalidDilation world.dilation)

namespace WorldSettings

variable {interval : Duration} {worlds : List WorldSettings}

theorem spawnable_concat {world : WorldSettings} (h : Spawnable interval worlds)
    (hnew : world.id ∉ worlds.map (·.id))
    (htick : (ClockSettings.tickDelta? interval world.dilation).isSome = true) :
    Spawnable interval (worlds ++ [world]) where
  nodup := by
    rw [List.map_append, List.nodup_append]
    refine ⟨h.nodup, List.pairwise_singleton _ _, fun a ha b hb => ?_⟩
    obtain rfl := List.mem_singleton.mp hb
    rintro rfl
    exact hnew ha
  ticks := by
    rw [List.forall_mem_append]
    exact ⟨h.ticks, List.forall_mem_singleton.mpr htick⟩

/-- Of worlds that cannot all be spawned, one is the first. -/
theorem exists_first_of_not_spawnable (h : ¬Spawnable interval worlds) :
    ∃ before world after error, worlds = before ++ world :: after ∧ Spawnable interval before ∧
      world.Fails interval before error := by
  induction worlds using List.reverseRecOn with
  | nil => exact absurd ⟨List.nodup_nil, List.forall_mem_nil _⟩ h
  | append_singleton worlds world ih =>
    by_cases hworlds : Spawnable interval worlds
    · by_cases hlisted : world.id ∈ worlds.map (·.id)
      · exact ⟨worlds, world, [], _, rfl, hworlds, .again hlisted⟩
      · cases htick : ClockSettings.tickDelta? interval world.dilation with
        | none => exact ⟨worlds, world, [], _, rfl, hworlds, .tick hlisted htick⟩
        | some delta => exact absurd (spawnable_concat hworlds hlisted (by rw [htick]; rfl)) h
    · obtain ⟨before, first, after, error, rfl, hbefore, hfails⟩ := ih hworlds
      exact ⟨before, first, after ++ [world], error, by simp, hbefore, hfails⟩

end WorldSettings

/-! ### Creating a world -/

namespace Manager

/-- A process knows nothing of a world. -/
def IsNewTo (p : Manager) (a : WorldId) : Prop := p.viewOf a = ⟨none, none, none, []⟩

/-- What happens when a world is created and nothing fails. -/
def creation (m : Moment) (order : SpawnOrder) : List (Moment × Move) :=
  [(m, .spawn order), (m, .read none), (m, .file), (m, .conclude .answered)]

variable {p : Manager} {m : Moment} {order : SpawnOrder}

theorem IsNewTo.get?_tickers {a : WorldId} (h : p.IsNewTo a) : p.tickers.get? a = none :=
  congrArg View.ticker h

theorem IsNewTo.get?_registry {a : WorldId} (h : p.IsNewTo a) :
    p.surroundings.registry.get? a = none :=
  congrArg View.entry h

theorem IsNewTo.about {a : WorldId} (h : p.IsNewTo a) : p.surroundings.log.about a = [] :=
  congrArg View.events h

theorem apply_read_of_new (hnew : p.IsNewTo order.world) :
    (p.spawnAt order .readingHistory).apply m (.read none) =
      p.spawnAt order (.creating (Filing.start (order.creation order.world 1 m.wall false))) := by
  have hhistory : p.surroundings.log.byAggregate order.world.text 1 = [] := by
    rw [EventLog.byAggregate_eq_historyOf, hnew.about, historyOf_nil]
  change (p.spawnAt order .readingHistory).restoreFrom m order
    (p.surroundings.log.byAggregate order.world.text 1) = _
  rw [hhistory]
  rfl

/-- The process once the log has taken an event. -/
def storing (p : Manager) (e : Event) : Manager :=
  { p with surroundings := { p.surroundings with log := ⟨e :: p.surroundings.log.newestFirst⟩ } }

theorem apply_file_of_new (hnew : p.IsNewTo order.world) :
    (p.spawnAt order (.creating (Filing.start (order.creation order.world 1 m.wall false)))).apply m
        .file =
      (p.storing (order.creation order.world 1 m.wall false)).spawnAt order
        (.creating ⟨order.creation order.world 1 m.wall false, some (.ok ())⟩) := by
  have hfault : (order.creation order.world 1 m.wall false).fault? = none :=
    Event.fault?_ofWorld order.world m.wall _ (by decide)
  have hfree : p.surroundings.log.hasVersion order.world.text 1 = false := by
    rw [EventLog.hasVersion_eq, hnew.about]
    rfl
  have happend : p.surroundings.log.append (order.creation order.world 1 m.wall false) =
      .ok ⟨order.creation order.world 1 m.wall false :: p.surroundings.log.newestFirst⟩ := by
    rw [EventLog.append, hfault]
    change (if p.surroundings.log.hasVersion order.world.text 1 then _ else _) = _
    rw [hfree]
    rfl
  rw [apply]
  simp only [file, spawnAt, Surroundings.file, Filing.file, Filing.start, happend]
  rfl

theorem launch_of_accepted (haccepted : order.IsAccepted p.wiring) (version : Count)
    (weatherSyncedAt : Duration) (plan : Option CatchUpPlan) :
    (p.launch order version weatherSyncedAt plan).errand = some (.over (.ok ())) ∧
      (p.launch order version weatherSyncedAt plan).isActive order.world = true := by
  obtain ⟨delta, hdelta⟩ := Option.isSome_iff_exists.mp haccepted
  simp only [launch, Ticker.new?, hdelta, Option.map_some, isActive, finish, tell,
    WorldTable.get?_set_self]
  exact ⟨trivial, rfl⟩

theorem enroll_of_new (hnew : p.surroundings.registry.get? order.world = none)
    (haccepted : order.IsAccepted p.wiring) :
    (p.enroll m order).errand = some (.over (.ok ())) ∧
      (p.enroll m order).isActive order.world = true := by
  have htable : p.surroundings.registry.table.contains order.world = false :=
    congrArg Option.isSome hnew
  have hregister : p.surroundings.registry.register
      (World.starting order.world order.name order.dilation m.wall) =
      .ok ⟨p.surroundings.registry.table.set order.world
        (World.starting order.world order.name order.dilation m.wall)⟩ := by
    change (if p.surroundings.registry.table.contains order.world then _ else _) = _
    rw [htable]
    rfl
  simp only [enroll, hregister]
  refine launch_of_accepted ?_ 1 Duration.zero none
  exact haccepted

/-- Once its creation is stored, a world is taken up. -/
theorem apply_conclude_of_new (hnew : p.IsNewTo order.world) (haccepted : order.IsAccepted p.wiring)
    (e : Event) :
    let q := ((p.storing e).spawnAt order (.creating ⟨e, some (.ok ())⟩)).apply m
      (.conclude .answered)
    q.errand = some (.over (.ok ())) ∧ q.isActive order.world = true := by
  refine enroll_of_new ?_ haccepted
  rw [project, Ticker.project_registry]
  exact hnew.get?_registry

theorem apply_spawn_of_new (hidle : p.isBusy = false) (hnew : p.IsNewTo order.world)
    (haccepted : order.IsAccepted p.wiring) :
    p.apply m (.spawn order) = p.spawnAt order .readingHistory :=
  apply_spawn_of_unknown hidle hnew.get?_tickers hnew.get?_registry haccepted

/-- A creation is about the world that is created, and no other. -/
theorem movesOf_creation (hidle : p.isBusy = false) (hnew : p.IsNewTo order.world)
    (haccepted : order.IsAccepted p.wiring) {a : WorldId} (hne : a ≠ order.world) :
    p.movesOf a (creation m order) = [] := by
  -- The moves after the first one find the errand that this one has begun.
  have hspawn : p.about? (.spawn order) ≠ some a :=
    fun h => hne (about?_spawn.mp h).2.symm
  have hstage (q : Manager) (stage : SpawnStage) {move : Move} (hinner : move.isInner = true)
      (hticker : move.ticker? = none) : (q.spawnAt order stage).about? move ≠ some a := by
    rw [about?_of_errand hinner hticker]
    exact fun h => hne (Option.some.inj h).symm
  have hread := apply_read_of_new (m := m) hnew
  have hfile := apply_file_of_new (m := m) hnew
  rw [creation, movesOf, if_neg hspawn, apply_spawn_of_new hidle hnew haccepted, movesOf,
    if_neg (hstage p _ rfl rfl), hread, movesOf, if_neg (hstage p _ rfl rfl), hfile, movesOf,
    if_neg (hstage _ _ rfl rfl), movesOf]

end Manager

/-! ### Spawning many worlds -/

namespace Simulation

variable {s : Simulation} {order : SpawnOrder}

theorem nextRead_of_empty (h : s.scripts.read = ⟨[]⟩) : s.nextRead = (none, s) := by
  obtain ⟨manager, startedAt, elapsed, jumped, scripts, catchUpOnly, ready, alarms, alarmCount⟩ := s
  obtain ⟨publish, weather, append, read, publishReason, weatherReason, logReason⟩ := scripts
  cases h
  rfl

theorem runErrand_of_over {result : Except ManagerError Unit}
    (h : s.manager.errand = some (.over result)) (fuel : Nat) : runErrand fuel s = s := by
  cases fuel with
  | zero => rfl
  | succ fuel => rw [runErrand, h]

theorem runErrand_of_reading (h : s.manager.errand = some (.spawn order .readingHistory))
    (hread : s.scripts.read = ⟨[]⟩) (fuel : Nat) :
    runErrand (fuel + 1) s = runErrand fuel (s.move (.read none)) := by
  rw [runErrand, h]
  simp only [nextRead_of_empty hread]

theorem runErrand_of_creating {filing : Filing}
    (h : s.manager.errand = some (.spawn order (.creating filing)))
    (happend : s.scripts.append = ⟨[]⟩) (fuel : Nat) :
    runErrand (fuel + 1) s = runErrand fuel ((s.move .file).move (.conclude .answered)) := by
  obtain ⟨manager, startedAt, elapsed, jumped, scripts, catchUpOnly, ready, alarms, alarmCount⟩ := s
  obtain ⟨publish, weather, append, read, publishReason, weatherReason, logReason⟩ := scripts
  cases happend
  rw [runErrand, h]
  rfl

/-- A simulated process in which some worlds have been created and nothing else has been done. -/
structure Boots (w : Wiring) (started : List WorldId) (s : Simulation) : Prop where
  coherent : s.manager.Coherent
  wiring : s.manager.wiring = w
  idle : s.manager.isBusy = false
  append : s.scripts.append = ⟨[]⟩
  read : s.scripts.read = ⟨[]⟩
  active : ∀ a ∈ started, s.manager.isActive a = true
  new : ∀ a, a ∉ started → s.manager.IsNewTo a

variable {w : Wiring} {started : List WorldId}

/-- A spawn that is refused at once. -/
theorem spawn_of_refused {error : ManagerError} (hidle : s.manager.isBusy = false)
    (hrefused : s.manager.beginSpawn order = s.manager.finish (.error error)) :
    (s.spawn order).1 = .error error := by
  have hover : (s.move (.spawn order)).manager.errand = some (.over (.error error)) := by
    rw [move, Manager.apply, hidle]
    exact congrArg Manager.errand hrefused
  rw [spawn, runErrand_of_over hover]
  simp only [result, Manager.result?, hover, Option.getD_some]

theorem Boots.spawn_again (h : s.Boots w started) (hold : order.world ∈ started) :
    (s.spawn order).1 = .error (.alreadyRunning order.world) := by
  refine spawn_of_refused h.idle ?_
  rw [Manager.beginSpawn, if_pos (h.active _ hold)]

theorem Boots.spawn_unaccepted (h : s.Boots w started) (hnew : order.world ∉ started)
    (hrefused : ClockSettings.tickDelta? w.clock.tickInterval order.dilation = none) :
    (s.spawn order).1 = .error (.invalidDilation order.dilation) := by
  refine spawn_of_refused h.idle ?_
  have hinactive : s.manager.isActive order.world = false := by
    rw [Manager.isActive, (h.new _ hnew).get?_tickers]
  rw [Manager.beginSpawn, hinactive, h.wiring, hrefused]
  rfl

/-- Nothing comes in between while a world is created. -/
theorem Boots.spawn_new (h : s.Boots w started) (hnew : order.world ∉ started)
    (haccepted : order.IsAccepted w) :
    s.spawn order = (.ok (), { s with
      manager := s.manager.run (Manager.creation s.now order)
      ready := s.ready ++ [order.world] }) ∧
      (s.manager.run (Manager.creation s.now order)).isBusy = false ∧
      (s.manager.run (Manager.creation s.now order)).isActive order.world = true := by
  have hworld := h.new _ hnew
  have haccepted' : order.IsAccepted s.manager.wiring := h.wiring ▸ haccepted
  have hspawn := Manager.apply_spawn_of_new (m := s.now) h.idle hworld haccepted'
  have hread := Manager.apply_read_of_new (m := s.now) hworld
  have hfile := Manager.apply_file_of_new (m := s.now) hworld
  obtain ⟨hover, hactive⟩ := Manager.apply_conclude_of_new (m := s.now) hworld haccepted'
    (order.creation order.world 1 s.now.wall false)
  rw [← hfile, ← hread, ← hspawn] at hover hactive
  have hreading : (s.move (.spawn order)).manager.errand =
      some (.spawn order .readingHistory) := congrArg Manager.errand hspawn
  have hcreating : ((s.move (.spawn order)).move (.read none)).manager.errand = some (.spawn order
      (.creating (Filing.start (order.creation order.world 1 s.now.wall false)))) := by
    refine (congrArg (fun p => (p.apply s.now (.read none)).errand) hspawn).trans ?_
    exact congrArg Manager.errand hread
  have hrun : runErrand errandSteps (s.move (.spawn order)) =
      { s with manager := s.manager.run (Manager.creation s.now order) } := by
    rw [errandSteps, runErrand_of_reading hreading h.read, runErrand_of_creating hcreating h.append]
    exact runErrand_of_over hover 6
  have hrunOver : (s.manager.run (Manager.creation s.now order)).errand = some (.over (.ok ())) :=
    hover
  refine ⟨?_, ?_, hactive⟩
  · simp only [spawn, hrun, result, Manager.result?, hrunOver, Option.getD_some]
  · simp only [Manager.isBusy, hrunOver]

/-- Of the worlds that have been started, each has its ticker; of the others nothing is known. -/
theorem Boots.spawn (h : s.Boots w started) (hnew : order.world ∉ started)
    (haccepted : order.IsAccepted w) :
    (s.spawn order).1 = .ok () ∧ (s.spawn order).2.Boots w (order.world :: started) := by
  obtain ⟨hspawn, hidle, hactive⟩ := h.spawn_new hnew haccepted
  have haccepted' : order.IsAccepted s.manager.wiring := h.wiring ▸ haccepted
  have hothers (a : WorldId) (hne : a ≠ order.world) :
      (s.manager.run (Manager.creation s.now order)).viewOf a = s.manager.viewOf a :=
    Manager.viewOf_run_of_movesOf_eq_nil h.coherent
      (Manager.movesOf_creation h.idle (h.new _ hnew) haccepted' hne)
  rw [hspawn]
  have hwiring := Manager.run_wiring h.coherent (Manager.creation s.now order)
  refine ⟨rfl, Manager.Coherent.run h.coherent _, hwiring.trans h.wiring, hidle, h.append, h.read,
    fun a ha => ?_, fun a ha => ?_⟩
  · obtain rfl | ha := List.mem_cons.mp ha
    · exact hactive
    · have hne : a ≠ order.world := by
        rintro rfl
        exact hnew ha
      exact (Manager.alike_of_view hwiring (hothers a hne)).isActive.trans (h.active a ha)
  · rw [List.mem_cons, not_or] at ha
    exact (hothers a ha.1).trans (h.new a ha.2)

/-- Worlds that can be spawned one after another are. -/
theorem Boots.spawnEach (h : s.Boots w started) {worlds : List WorldSettings}
    (hnew : ∀ world ∈ worlds, world.id ∉ started)
    (hspawnable : WorldSettings.Spawnable w.clock.tickInterval worlds)
    (rest : List WorldSettings) :
    ∃ s' : Simulation, s.spawnEach (worlds ++ rest) = s'.spawnEach rest ∧
      s'.Boots w ((worlds.map (·.id)).reverse ++ started) := by
  -- What is required of the worlds to come grows with each that is started.
  induction worlds generalizing s started with
  | nil => exact ⟨s, rfl, h⟩
  | cons first worlds ih =>
    obtain ⟨hfirst, hworlds⟩ := List.forall_mem_cons.mp hnew
    obtain ⟨hnodup, hticks⟩ := hspawnable
    rw [List.map_cons, List.nodup_cons] at hnodup
    obtain ⟨htick, hticks⟩ := List.forall_mem_cons.mp hticks
    have hfirst' : first.order.world ∉ started := hfirst
    obtain ⟨hok, hboots⟩ := h.spawn hfirst' htick
    have hnew' : ∀ world ∈ worlds, world.id ∉ first.id :: started := by
      intro world hworld hmem
      obtain heq | hmem := List.mem_cons.mp hmem
      · exact hnodup.1 (heq ▸ List.mem_map_of_mem hworld)
      · exact hworlds world hworld hmem
    obtain ⟨s', hspawns, hboots'⟩ := ih hboots hnew' ⟨hnodup.2, hticks⟩
    refine ⟨s', ?_, ?_⟩
    · rw [List.cons_append, Simulation.spawnEach]
      have hpair : s.spawn first.order = (.ok (), (s.spawn first.order).2) := Prod.ext hok rfl
      rw [hpair]
      exact hspawns
    · rw [List.map_cons, List.reverse_cons, List.append_assoc]
      exact hboots'

/-- What a spawn comes to that cannot be made after those that have been. -/
theorem Boots.spawn_of_fails {before : List WorldSettings} {world : WorldSettings}
    {error : ManagerError} (h : s.Boots w (before.map (·.id)).reverse)
    (hfails : world.Fails w.clock.tickInterval before error) :
    (s.spawn world.order).1 = .error error := by
  cases hfails with
  | again hlisted => exact h.spawn_again (List.mem_reverse.mpr hlisted)
  | tick hnew htick => exact h.spawn_unaccepted (fun hmem => hnew (List.mem_reverse.mp hmem)) htick

theorem Boots.isActive_iff (h : s.Boots w started) (a : WorldId) :
    s.manager.isActive a = true ↔ a ∈ started := by
  refine ⟨fun hactive => ?_, h.active a⟩
  by_contra hnew
  rw [Manager.isActive, (h.new a hnew).get?_tickers] at hactive
  cases hactive

theorem spawnEach_of_error {first : WorldSettings} {error : ManagerError}
    (h : (s.spawn first.order).1 = .error error) (rest : List WorldSettings) :
    (s.spawnEach (first :: rest)).1 = .error error := by
  have hpair : s.spawn first.order = (.error error, (s.spawn first.order).2) := Prod.ext h rfl
  rw [spawnEach, hpair]

end Simulation

/-! ### The engine -/

namespace EngineStep

variable {host : EngineHost} {settings : Settings} {e : Engine}

/-- There is nothing to replay from an empty log. -/
theorem replayHistories_empty (worlds : List WorldSettings) (d : Dispatcher ReadModel)
    (e : Engine) : replayHistories .empty worlds d e = .ok d e := by
  induction worlds with
  | nil => rfl
  | cons w worlds ih =>
    have hnothing : d.rebuild .empty w.id.text = (d, .ok 0) := by
      rw [Dispatcher.rebuild, EventLog.byAggregate_eq_historyOf]
      change d.projectAll (historyOf []) = _
      rw [historyOf_nil]
      rfl
    rw [replayHistories, hnothing]
    exact ih

/-- Settings that an engine starts with have been checked. -/
theorem fault?_of_forStart
    (h : Settings.forStart host.environment host.settingsFile = .ok settings) :
    settings.fault? = none := by
  cases hfile : host.settingsFile with
  | absent =>
    rw [hfile] at h
    cases h
    rfl
  | unreadable reason =>
    rw [hfile] at h
    cases h
  | holding bytes =>
    rw [hfile] at h
    change Settings.ofFile host.environment (.holding bytes) = .ok settings at h
    rw [Settings.ofFile] at h
    split at h
    · cases h
    · rw [Settings.ofText] at h
      split at h
      · cases h
      · rw [Settings.checked] at h
        split at h
        · cases h
        · next hfault =>
          cases h
          exact hfault

theorem zeroSetting?_of_fault? (h : settings.fault? = none) :
    settings.clock.zeroSetting? = none := by
  rw [Settings.fault?] at h
  cases hclock : settings.clock.fault? with
  | none => exact Option.map_eq_none_iff.mp hclock
  | some fault =>
    rw [hclock] at h
    cases h

/-- Without a message server, a process starts that knows no world. -/
theorem startProcess_eq (host : EngineHost) (h : settings.fault? = none)
    (d : Dispatcher ReadModel) (e : Engine) :
    ∃ (w : Wiring) (s : Simulation) (e' : Engine),
      startProcess host settings .empty false d e = .ok () e' ∧ e'.process = some s ∧
      w.clock = settings.clock ∧ s.Boots w [] := by
  obtain ⟨w, hclock, hwiring⟩ := Manager.wiring?_eq_ok (zeroSetting?_of_fault? h) false false
  have hprocess : startProcess host settings .empty false d e = .ok ()
      { e with process := some (Simulation.start
        { Manager.start w .empty (some d) with surroundings :=
          { (Manager.start w .empty (some d)).surroundings with notices := e.early } }
        host.startedAt (scripts host "")) } := by
    simp only [startProcess, Bool.false_eq_true, if_false, Option.isSome_none, hwiring]
    rfl
  refine ⟨w, _, _, hprocess, rfl, hclock, ?_, rfl, rfl, rfl, rfl, ?_, ?_⟩
  · exact Manager.coherent_start w .empty (some d)
  · rintro a ⟨⟩
  · exact fun a _ => rfl

/-- Before worlds are spawned, a process is there that knows none of them. -/
theorem start_eq (hsettings : Settings.forStart host.environment host.settingsFile = .ok settings)
    (hnats : settings.services.natsUrl = none) (hdatabase : settings.services.databaseUrl = none) :
    ∃ (w : Wiring) (s : Simulation) (e : Engine), w.clock = settings.clock ∧ s.Boots w [] ∧
      e.process = some s ∧
      start host Engine.idle = (do spawnAll settings.worlds; return settings) e := by
  obtain ⟨e₁, hconfigure⟩ : ∃ e₁, configure host Engine.idle = .ok settings e₁ := by
    rw [configure, hsettings]
    exact ⟨_, rfl⟩
  obtain ⟨e₂, hlog⟩ : ∃ e₂, openLog settings.services e₁ = .ok .empty e₂ := by
    rw [openLog, hdatabase]
    exact ⟨_, rfl⟩
  obtain ⟨e₃, hconnect⟩ : ∃ e₃, connect host settings.services e₂ = .ok false e₃ := by
    rw [connect, hnats]
    exact ⟨_, rfl⟩
  have hreplay := replayHistories_empty settings.worlds
    (Dispatcher.empty.register ReadModel.timelineProjection) e₃
  obtain ⟨w, s, e₄, hstarts, hprocess, hclock, hboots⟩ := startProcess_eq host
    (fault?_of_forStart hsettings) (Dispatcher.empty.register ReadModel.timelineProjection) e₃
  refine ⟨w, s, e₄, hclock, hboots, hprocess, ?_⟩
  simp only [start, bind, EStateM.bind, hconfigure, hlog, hconnect, hreplay, hstarts]

theorem get_eq (e : Engine) : (get : EngineStep Engine) e = .ok e e := rfl

theorem spawnAll_eq_ok {s s' : Simulation} (hprocess : e.process = some s)
    {worlds : List WorldSettings} (h : s.spawnEach worlds = (.ok (), s')) :
    ∃ e' n, spawnAll worlds e = .ok () e' ∧ e'.process = some (s'.tell n) := by
  let n := Notice.allRunning s'.manager.activeWorlds.length
  refine ⟨{ e with process := some (s'.tell n) }, n, ?_, rfl⟩
  simp only [spawnAll, bind, EStateM.bind, get_eq, hprocess, h]
  rfl

theorem spawnAll_eq_error {s : Simulation} (hprocess : e.process = some s)
    {worlds : List WorldSettings} {error : ManagerError}
    (h : (s.spawnEach worlds).1 = .error error) :
    ∃ e', spawnAll worlds e = .error (.manager error) e' := by
  refine ⟨{ e with process := some (s.spawnEach worlds).2 }, ?_⟩
  simp only [spawnAll, bind, EStateM.bind, get_eq, hprocess, h]
  rfl

theorem start_eq_ok
    (hsettings : Settings.forStart host.environment host.settingsFile = .ok settings)
    (hnats : settings.services.natsUrl = none) (hdatabase : settings.services.databaseUrl = none)
    (hspawnable : WorldSettings.Spawnable settings.clock.tickInterval settings.worlds) :
    ∃ e process, start host Engine.idle = .ok settings e ∧ e.process = some process ∧
      ∀ a, process.manager.isActive a = true ↔ a ∈ settings.worlds.map (·.id) := by
  obtain ⟨w, s, e, hclock, hboots, hprocess, hstart⟩ := start_eq hsettings hnats hdatabase
  obtain ⟨s', hspawns, hboots'⟩ := hboots.spawnEach (fun _ _ => List.not_mem_nil)
    (hclock ▸ hspawnable) []
  rw [List.append_nil] at hspawns hboots'
  obtain ⟨e', n, hall, hprocess'⟩ := spawnAll_eq_ok hprocess hspawns
  refine ⟨e', s'.tell n, ?_, hprocess', fun a => ?_⟩
  · simp only [hstart, bind, EStateM.bind, hall]
    rfl
  · have hstarted := hboots'.isActive_iff a
    rwa [List.mem_reverse] at hstarted

theorem start_eq_error
    (hsettings : Settings.forStart host.environment host.settingsFile = .ok settings)
    (hnats : settings.services.natsUrl = none) (hdatabase : settings.services.databaseUrl = none)
    {before after : List WorldSettings} {world : WorldSettings} {error : ManagerError}
    (hworlds : settings.worlds = before ++ world :: after)
    (hbefore : WorldSettings.Spawnable settings.clock.tickInterval before)
    (hfails : world.Fails settings.clock.tickInterval before error) :
    ∃ e, start host Engine.idle = .error (.manager error) e := by
  obtain ⟨w, s, e, hclock, hboots, hprocess, hstart⟩ := start_eq hsettings hnats hdatabase
  obtain ⟨s', hspawns, hboots'⟩ := hboots.spawnEach (fun _ _ => List.not_mem_nil)
    (hclock ▸ hbefore) (world :: after)
  rw [List.append_nil] at hboots'
  have herror : (s.spawnEach settings.worlds).1 = .error error := by
    rw [hworlds, hspawns]
    exact Simulation.spawnEach_of_error (hboots'.spawn_of_fails (hclock ▸ hfails)) after
  obtain ⟨e', hall⟩ := spawnAll_eq_error hprocess herror
  exact ⟨e', by simp only [hstart, bind, EStateM.bind, hall]⟩

/-- An engine starts if its worlds can be spawned one after another, and then they are active and no
others. Otherwise it ends with the first world that cannot be spawned after those before it. -/
theorem starts_if_spawnable
    (hsettings : Settings.forStart host.environment host.settingsFile = .ok settings)
    (hnats : settings.services.natsUrl = none) (hdatabase : settings.services.databaseUrl = none) :
    (WorldSettings.Spawnable settings.clock.tickInterval settings.worlds →
      ∃ e process, start host Engine.idle = .ok settings e ∧ e.process = some process ∧
        ∀ a, process.manager.isActive a = true ↔ a ∈ settings.worlds.map (·.id)) ∧
    (¬WorldSettings.Spawnable settings.clock.tickInterval settings.worlds →
      ∃ before world after error e, settings.worlds = before ++ world :: after ∧
        WorldSettings.Spawnable settings.clock.tickInterval before ∧
        world.Fails settings.clock.tickInterval before error ∧
        start host Engine.idle = .error (.manager error) e) := by
  refine ⟨start_eq_ok hsettings hnats hdatabase, fun hspawnable => ?_⟩
  obtain ⟨before, world, after, error, hworlds, hbefore, hfails⟩ :=
    WorldSettings.exists_first_of_not_spawnable hspawnable
  obtain ⟨e, hstart⟩ := start_eq_error hsettings hnats hdatabase hworlds hbefore hfails
  exact ⟨before, world, after, error, e, hworlds, hbefore, hfails, hstart⟩

/-- An engine that finds a settings file and nothing else around it. -/
def hostOf (text : String) : EngineHost where
  environment := fun _ => none
  settingsFile := .holding (Text.bytes text)
  connectFailure := none
  flushFailure := none
  publish := ⟨[]⟩
  request := ⟨[]⟩
  startedAt := (Manager.momentAt 0).wall

theorem forStart_hostOf (text : String) :
    Settings.forStart (hostOf text).environment (hostOf text).settingsFile =
      Settings.ofText (fun _ => none) text := by
  change Settings.ofFile _ (.holding (Text.bytes text)) = _
  rw [Settings.ofFile, Text.ofBytes?_bytes]
  rfl

/-- A world in a settings file. -/
def entry (digit name dilation : String) : String :=
  "- id: 00000000-0000-0000-0000-00000000000" ++ digit ++ "\n  name: " ++ name ++
    "\n  dilation_factor: " ++ dilation ++ "\n"

/-- The first world takes a minute for each second of the second one. -/
def twoWorlds : String := "worlds:\n" ++ entry "0" "a" "1.0" ++ entry "1" "b" "60.0"

def listedTwice : String := "worlds:\n" ++ entry "0" "a" "1.0" ++ entry "0" "b" "1.0"

/-- Each tick would take more than three thousand years. -/
def tooFast : String := "worlds:\n" ++ entry "0" "a" "1.0e+12"

theorem starts_if_spawnable_of_twoWorlds :
    ∃ settings,
      Settings.forStart (hostOf twoWorlds).environment (hostOf twoWorlds).settingsFile =
        .ok settings ∧
      settings.services.natsUrl = none ∧ settings.services.databaseUrl = none ∧
      WorldSettings.Spawnable settings.clock.tickInterval settings.worlds ∧
      ∃ e process, start (hostOf twoWorlds) Engine.idle = .ok settings e ∧
        e.process = some process ∧
        ∀ a, process.manager.isActive a = true ↔ a ∈ settings.worlds.map (·.id) := by
  have hsettings : Settings.ofText (fun _ => none) twoWorlds = .ok { Settings.standard with
      worlds := [⟨⟨⟨0⟩⟩, "a", .one⟩, ⟨⟨⟨1⟩⟩, "b", ⟨0x404E000000000000⟩⟩] } := by decide +kernel
  have hspawnable : WorldSettings.Spawnable ClockSettings.standard.tickInterval
      [⟨⟨⟨0⟩⟩, "a", .one⟩, ⟨⟨⟨1⟩⟩, "b", ⟨0x404E000000000000⟩⟩] :=
    ⟨by decide +kernel, by decide +kernel⟩
  have hforStart := (forStart_hostOf twoWorlds).trans hsettings
  exact ⟨_, hforStart, rfl, rfl, hspawnable,
    (starts_if_spawnable hforStart rfl rfl).1 hspawnable⟩

/-- Settings in which a world is listed twice are in order, and so are settings with a dilation that
is too large for the ticks. Neither of them starts. -/
theorem accepted_and_refused :
    (∃ settings e,
      Settings.forStart (hostOf listedTwice).environment (hostOf listedTwice).settingsFile =
        .ok settings ∧
      settings.services.natsUrl = none ∧ settings.services.databaseUrl = none ∧
      start (hostOf listedTwice) Engine.idle = .error (.manager (.alreadyRunning ⟨⟨0⟩⟩)) e) ∧
    ∃ settings e,
      Settings.forStart (hostOf tooFast).environment (hostOf tooFast).settingsFile =
        .ok settings ∧
      settings.services.natsUrl = none ∧ settings.services.databaseUrl = none ∧
      start (hostOf tooFast) Engine.idle =
        .error (.manager (.invalidDilation ⟨0x426D1A94A2000000⟩)) e := by
  have htwice : Settings.ofText (fun _ => none) listedTwice = .ok { Settings.standard with
      worlds := [⟨⟨⟨0⟩⟩, "a", .one⟩, ⟨⟨⟨0⟩⟩, "b", .one⟩] } := by decide +kernel
  have hfast : Settings.ofText (fun _ => none) tooFast = .ok { Settings.standard with
      worlds := [⟨⟨⟨0⟩⟩, "a", ⟨0x426D1A94A2000000⟩⟩] } := by decide +kernel
  have hforTwice := (forStart_hostOf listedTwice).trans htwice
  have hforFast := (forStart_hostOf tooFast).trans hfast
  have hsecond : ([⟨⟨⟨0⟩⟩, "a", .one⟩, ⟨⟨⟨0⟩⟩, "b", .one⟩] : List WorldSettings) =
      [⟨⟨⟨0⟩⟩, "a", .one⟩] ++ ⟨⟨⟨0⟩⟩, "b", .one⟩ :: [] := rfl
  have hfirst : ([⟨⟨⟨0⟩⟩, "a", ⟨0x426D1A94A2000000⟩⟩] : List WorldSettings) =
      [] ++ ⟨⟨⟨0⟩⟩, "a", ⟨0x426D1A94A2000000⟩⟩ :: [] := rfl
  obtain ⟨e, hstart⟩ := start_eq_error hforTwice rfl rfl hsecond
    ⟨by decide +kernel, by decide +kernel⟩ (.again (by decide +kernel))
  obtain ⟨e', hstart'⟩ := start_eq_error hforFast rfl rfl hfirst
    ⟨by decide +kernel, by decide +kernel⟩ (.tick (by decide +kernel) (by decide +kernel))
  exact ⟨⟨_, e, hforTwice, rfl, rfl, hstart⟩, ⟨_, e', hforFast, rfl, rfl, hstart'⟩⟩

end EngineStep

end WorldClock
