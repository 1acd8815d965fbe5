import WorldClock.Proofs.Manager.Moves

/-!
# Errands in two processes

What an errand does hangs on what its process holds of its world. So in two processes that hold the
same of a world (`Manager.Alike`) an errand about it takes the same steps, waits for the same, ends
with the same result, and leaves the same behind (`Manager.Matches`), whatever else the two hold.
-/

namespace WorldClock

/-! ### Registries and logs -/

theorem Registry.update_congr {r r' : Registry} {world : WorldId}
    (h : r'.get? world = r.get? world) (change : World → World) :
    (∃ e, r.update world change = .error e ∧ r'.update world change = .error e) ∨
      ∃ new, r.update world change = .ok (new, ⟨r.table.set world new⟩) ∧
        r'.update world change = .ok (new, ⟨r'.table.set world new⟩) := by
  rw [update, update, h]
  cases r.get? world with
  | none => exact .inl ⟨_, rfl, rfl⟩
  | some old =>
    simp only
    cases old.regression? (change old) with
    | some reason => exact .inl ⟨_, rfl, rfl⟩
    | none => exact .inr ⟨_, rfl, rfl⟩

theorem Registry.register_congr {r r' : Registry} {world : WorldId}
    (h : r'.get? world = r.get? world) {new : World} (hid : new.id = world) :
    (∃ e, r.register new = .error e ∧ r'.register new = .error e) ∨
      r.register new = .ok ⟨r.table.set world new⟩ ∧
        r'.register new = .ok ⟨r'.table.set world new⟩ := by
  have htable : r'.table.get? world = r.table.get? world := h
  rw [register, register, hid, WorldTable.contains, WorldTable.contains, htable]
  split
  · exact .inl ⟨_, rfl, rfl⟩
  · exact .inr ⟨rfl, rfl⟩

theorem EventLog.append_congr {log log' : EventLog} {world : WorldId} {e : Event}
    (hworld : e.aggregateId = world.text) (h : log'.about world = log.about world) :
    (∃ error, log.append e = .error error ∧ log'.append e = .error error) ∨
      log.append e = .ok ⟨e :: log.newestFirst⟩ ∧ log'.append e = .ok ⟨e :: log'.newestFirst⟩ := by
  rw [append, append, hworld, hasVersion_eq, hasVersion_eq, h]
  cases e.fault? with
  | some fault => exact .inl ⟨_, rfl, rfl⟩
  | none =>
    simp only
    split
    · exact .inl ⟨_, rfl, rfl⟩
    · exact .inr ⟨rfl, rfl⟩

theorem EventLog.about_cons {log : EventLog} {world : WorldId} {e : Event}
    (hworld : e.aggregateId = world.text) :
    (⟨e :: log.newestFirst⟩ : EventLog).about world = e :: log.about world := by
  rw [about, List.filter_cons, if_pos (by simpa using hworld)]
  rfl

/-- What a log makes of an append hangs on the history of its world. -/
theorem Filing.file_congr {f : Filing} {log log' : EventLog} {world : WorldId}
    (hworld : f.event.aggregateId = world.text) (h : log'.about world = log.about world) :
    (f.file log').1 = (f.file log).1 ∧
      (f.file log').2.about world = (f.file log).2.about world := by
  rw [file, file]
  cases f.verdict with
  | some verdict => exact ⟨rfl, h⟩
  | none =>
    obtain ⟨error, hlog, hlog'⟩ | ⟨hlog, hlog'⟩ := EventLog.append_congr hworld h
    · simp only [hlog, hlog']
      exact ⟨trivial, h⟩
    · simp only [hlog, hlog', EventLog.about_cons hworld, h, and_self]

/-- Surroundings in which a world finds the same. -/
structure Surroundings.Alike (world : WorldId) (s s' : Surroundings) : Prop where
  entry : s'.registry.get? world = s.registry.get? world
  events : s'.log.about world = s.log.about world

theorem Surroundings.Alike.set {world : WorldId} {s s' : Surroundings} (h : s.Alike world s')
    (new : World) :
    Alike world { s with registry := ⟨s.registry.table.set world new⟩ }
      { s' with registry := ⟨s'.registry.table.set world new⟩ } where
  entry := by rw [Registry.get?_set, Registry.get?_set, if_pos rfl, if_pos rfl]
  events := h.events

/-- What a log makes of an append that is under way, and what it is asked about a world. -/
theorem Surroundings.Alike.file {world : WorldId} {s s' : Surroundings} (h : s.Alike world s')
    {f : Filing} (hworld : f.event.aggregateId = world.text) :
    (s'.file f).1 = (s.file f).1 ∧ Alike world (s.file f).2 (s'.file f).2 := by
  obtain ⟨hfile, habout⟩ := Filing.file_congr hworld h.events
  exact ⟨hfile, h.entry, habout⟩

theorem Surroundings.Alike.latestVersion? {world : WorldId} {s s' : Surroundings}
    (h : s.Alike world s') :
    s'.log.latestVersion? world.text = s.log.latestVersion? world.text :=
  congrArg EventLog.greatestVersion? h.events

namespace Manager

/-- Two processes hold the same of a world, but for errands. -/
structure Alike (a : WorldId) (p q : Manager) : Prop where
  wiring : q.wiring = p.wiring
  surroundings : p.surroundings.Alike a q.surroundings
  ticker : q.tickers.get? a = p.tickers.get? a

/-- And they have the same errand under way. -/
structure Matches (a : WorldId) (p q : Manager) : Prop extends Alike a p q where
  errand : q.errand = p.errand

variable {a : WorldId} {p q : Manager} {m : Moment}

theorem alike_of_view (hwiring : q.wiring = p.wiring) (hview : q.viewOf a = p.viewOf a) :
    Alike a p q :=
  ⟨hwiring, ⟨congrArg View.entry hview, congrArg View.events hview⟩, congrArg View.ticker hview⟩

theorem Matches.viewOf_eq (h : Matches a p q) : q.viewOf a = p.viewOf a := by
  simp only [viewOf, h.surroundings.entry, h.ticker, h.errand, h.surroundings.events]

namespace Alike

theorem tell (h : Alike a p q) (world : WorldId) (n : WorldNotice) :
    Alike a (p.tell world n) (q.tell world n) :=
  ⟨h.wiring, ⟨h.surroundings.entry, h.surroundings.events⟩, h.ticker⟩

theorem project (h : Alike a p q) (world : WorldId) (e : Event) :
    Alike a (p.project world e) (q.project world e) := by
  refine ⟨h.wiring, ⟨?_, ?_⟩, h.ticker⟩
  · rw [Manager.project, Manager.project, Ticker.project_registry, Ticker.project_registry,
      h.surroundings.entry]
  · rw [Manager.project, Manager.project, Ticker.project_log, Ticker.project_log,
      h.surroundings.events]

theorem setEntry (h : Alike a p q) (entry : World) :
    Alike a (p.withEntry a entry) (q.withEntry a entry) :=
  ⟨h.wiring, h.surroundings.set entry, h.ticker⟩

theorem withSurroundings (h : Alike a p q) {s s' : Surroundings} (hs : s.Alike a s') :
    Alike a { p with surroundings := s } { q with surroundings := s' } :=
  ⟨h.wiring, hs, h.ticker⟩

theorem finish (h : Alike a p q) (result : Except ManagerError Unit) :
    Matches a (p.finish result) (q.finish result) :=
  ⟨⟨h.wiring, h.surroundings, h.ticker⟩, rfl⟩

theorem spawnAt (h : Alike a p q) (order : SpawnOrder) (stage : SpawnStage) :
    Matches a (p.spawnAt order stage) (q.spawnAt order stage) :=
  ⟨⟨h.wiring, h.surroundings, h.ticker⟩, rfl⟩

theorem stopAt (h : Alike a p q) (world : WorldId) (stage : StopStage) :
    Matches a (p.stopAt world stage) (q.stopAt world stage) :=
  ⟨⟨h.wiring, h.surroundings, h.ticker⟩, rfl⟩

theorem isActive (h : Alike a p q) : q.isActive a = p.isActive a := by
  rw [Manager.isActive, Manager.isActive, h.ticker]

/-! ### Spawns -/

theorem launch {order : SpawnOrder} (h : Alike order.world p q) (version : Count)
    (weatherSyncedAt : Duration) (plan : Option CatchUpPlan) :
    Matches order.world (p.launch order version weatherSyncedAt plan)
      (q.launch order version weatherSyncedAt plan) := by
  have hclock : q.wiring.clock = p.wiring.clock := congrArg Wiring.clock h.wiring
  rw [Manager.launch, Manager.launch, hclock]
  split
  · exact h.finish _
  · next t _ =>
    have hset : Alike order.world { p with tickers := p.tickers.set order.world t }
        { q with tickers := q.tickers.set order.world t } :=
      ⟨h.wiring, h.surroundings, by rw [WorldTable.get?_set_self, WorldTable.get?_set_self]⟩
    exact (hset.tell _ _).finish _

theorem takeUp {order : SpawnOrder} (h : Alike order.world p q) (known : World) (version : Count) :
    Matches order.world (p.takeUp m order known version) (q.takeUp m order known version) := by
  have hplan : q.planFor m known = p.planFor m known := by
    rw [planFor_eq, planFor_eq, h.wiring]
  rw [Manager.takeUp, Manager.takeUp, hplan]
  obtain ⟨e, hp, hq⟩ | ⟨new, hp, hq⟩ :=
    Registry.update_congr h.surroundings.entry (resumed order (p.planFor m known))
  · simp only [hp, hq]
    exact h.finish _
  · simp only [hp, hq]
    exact ((h.setEntry new).tell _ _).launch _ _ _

theorem announce {order : SpawnOrder} (h : Alike order.world p q) (known : World)
    (version : Count) :
    Matches order.world (p.announce m order known version) (q.announce m order known version) := by
  rw [Manager.announce, Manager.announce, h.wiring]
  split
  · exact h.spawnAt _ _
  · exact h.takeUp known version

theorem enroll {order : SpawnOrder} (h : Alike order.world p q) :
    Matches order.world (p.enroll m order) (q.enroll m order) := by
  rw [Manager.enroll, Manager.enroll]
  have hid : (World.starting order.world order.name order.dilation m.wall).id = order.world := rfl
  obtain ⟨e, hp, hq⟩ | ⟨hp, hq⟩ := Registry.register_congr h.surroundings.entry hid
  · simp only [hp, hq]
    exact h.finish _
  · simp only [hp, hq]
    exact ((h.setEntry _).tell _ _).launch _ _ _

theorem resume (h : Alike a p q) (order : SpawnOrder) (known : World) :
    Matches a (p.resume order known) (q.resume order known) := by
  rw [Manager.resume, Manager.resume]
  split
  · exact h.finish _
  · exact h.spawnAt _ _

theorem restoreFrom {order : SpawnOrder} (h : Alike order.world p q) (history : List Event) :
    Matches order.world (p.restoreFrom m order history) (q.restoreFrom m order history) := by
  rw [Manager.restoreFrom, Manager.restoreFrom]
  split
  · exact h.finish _
  · exact h.spawnAt _ _
  · next world count hhistory =>
    obtain ⟨t, rfl, hworld⟩ := restore_eq_some hhistory
    have htold := h.tell order.world (.restored count t.toWorld.tickCount)
    have hid : t.toWorld.id = order.world := hworld
    obtain ⟨e, hp, hq⟩ | ⟨hp, hq⟩ := Registry.register_congr htold.surroundings.entry hid
    · simp only [hp, hq]
      exact htold.finish _
    · simp only [hp, hq]
      exact (htold.setEntry _).resume _ _

theorem beginSpawn {order : SpawnOrder} (h : Alike order.world p q) :
    Matches order.world (p.beginSpawn order) (q.beginSpawn order) := by
  rw [Manager.beginSpawn, Manager.beginSpawn, h.isActive, h.wiring, h.surroundings.entry]
  split
  · exact h.finish _
  · split
    · exact h.finish _
    · split
      · exact h.resume _ _
      · exact h.spawnAt _ _

/-! ### Stops -/

theorem beginStop (h : Alike a p q) : Matches a (p.beginStop a) (q.beginStop a) := by
  rw [Manager.beginStop, Manager.beginStop, h.isActive]
  split
  · have hasked : Alike a { p with tickers := p.tickers.modify a Ticker.requestStop }
        { q with tickers := q.tickers.modify a Ticker.requestStop } :=
      ⟨h.wiring, h.surroundings,
        by rw [WorldTable.get?_modify, WorldTable.get?_modify, h.ticker]⟩
    exact hasked.stopAt _ _
  · exact h.finish _

theorem pause (h : Alike a p q) (version pending : Count) :
    Matches a (p.pause m a version pending) (q.pause m a version pending) := by
  rw [Manager.pause, Manager.pause, h.wiring]
  obtain ⟨e, hp, hq⟩ | ⟨new, hp, hq⟩ := Registry.update_congr h.surroundings.entry
    (World.paused (m.wall.backDated p.wiring.clock.tickInterval pending))
  · simp only [hp, hq]
    exact h.finish _
  · simp only [hp, hq]
    exact (h.setEntry new).stopAt _ _

theorem withoutTicker (h : Alike a p q) : Alike a (p.withoutTicker a) (q.withoutTicker a) :=
  ⟨h.wiring, h.surroundings, by
    rw [Manager.withoutTicker, Manager.withoutTicker, WorldTable.get?_erase,
      WorldTable.get?_erase, if_pos rfl, if_pos rfl]⟩

end Alike

namespace Matches

theorem join (h : Matches a p q) : Matches a (p.join m a) (q.join m a) := by
  rw [Manager.join, Manager.join, h.ticker]
  split
  · exact h
  · split
    · exact h.withoutTicker.pause _ _
    · exact (h.withoutTicker.tell _ _).stopAt _ _
    · exact h

/-! ### Waiting for the log -/

theorem read (h : Matches a p q) (habout : p.errand.bind Errand.world? = some a)
    (failure : Option LogError) : Matches a (p.read m failure) (q.read m failure) := by
  rw [Manager.read, Manager.read, h.errand]
  split
  · next order herrand =>
    obtain rfl : order.world = a := by simpa [herrand, Errand.world?] using habout
    split
    · exact h.finish _
    · rw [EventLog.byAggregate_eq_historyOf, EventLog.byAggregate_eq_historyOf,
        h.surroundings.events]
      exact h.restoreFrom _
  · next order known herrand =>
    obtain rfl : order.world = a := by simpa [herrand, Errand.world?] using habout
    split
    · exact h.finish _
    · rw [h.surroundings.latestVersion?]
      exact h.announce _ _
  · next world herrand =>
    obtain rfl : world = a := by simpa [herrand, Errand.world?] using habout
    split
    · exact h.finish _
    · rw [h.surroundings.latestVersion?]
      exact h.pause _ _
  · exact h

theorem file (h : Matches a p q)
    (hworld : ∀ f, p.filing? = some f → f.event.aggregateId = a.text) :
    Matches a p.file q.file := by
  rw [Manager.file, Manager.file, h.errand]
  split
  · next order f herrand =>
    obtain ⟨hfile, hstored⟩ := h.surroundings.file (hworld f (by rw [filing?, herrand]))
    simp only [hfile]
    exact (h.withSurroundings hstored).spawnAt _ _
  · next order known f herrand =>
    obtain ⟨hfile, hstored⟩ := h.surroundings.file (hworld f (by rw [filing?, herrand]))
    simp only [hfile]
    exact (h.withSurroundings hstored).spawnAt _ _
  · next world f known pending herrand =>
    obtain ⟨hfile, hstored⟩ := h.surroundings.file (hworld f (by rw [filing?, herrand]))
    simp only [hfile]
    exact (h.withSurroundings hstored).stopAt _ _
  · exact h

theorem conclude (h : Matches a p q) (habout : p.errand.bind Errand.world? = some a)
    (r : Reply LogError) : Matches a (p.conclude m r) (q.conclude m r) := by
  have hfiling : q.filing? = p.filing? := by rw [filing?, filing?, h.errand]
  rw [Manager.conclude, Manager.conclude, hfiling, h.errand]
  split
  · exact h
  · exact h
  · exact h.finish _
  · split
    · next order f herrand =>
      obtain rfl : order.world = a := by simpa [herrand, Errand.world?] using habout
      exact (h.project _ _).enroll
    · next order known f herrand =>
      obtain rfl : order.world = a := by simpa [herrand, Errand.world?] using habout
      exact (h.project _ _).takeUp _ _
    · exact ((h.project _ _).tell _ _).finish _
    · exact h

end Matches

end Manager

end WorldClock
