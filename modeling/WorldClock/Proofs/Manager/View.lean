import WorldClock.Proofs.Ticker.Steps
import WorldClock.Proofs.Timelines
import WorldClock.Manager.Move

/-!
# What a process holds of one world

A `View` is everything in a process that concerns one world: its entry in the registry, its ticker,
the errand if it is about this world, and its history in the log. Here is what the parts of a
manager's steps do to the view of any world; what concerns one world leaves the views of all others
alone.
-/

namespace WorldClock

/-- What a process holds of one world. -/
structure View where
  entry : Option World
  ticker : Option Ticker
  errand : Option Errand
  /-- The events of the world, the latest one first. -/
  events : List Event

/-- The world that an errand under way is about. -/
def Errand.world? : Errand → Option WorldId
  | .spawn order _ => some order.world
  | .stop world _ => some world
  | .over _ => none

/-- The plan of a world that is resumed at an instant. -/
def World.planAt (interval : Duration) (now : Instant) (known : World) : Option CatchUpPlan :=
  match known.status, known.pausedAt with
  | .paused, some pausedAt => some (CatchUpPlan.between pausedAt now interval)
  | _, _ => none

namespace Manager

/-- What the process holds of a world. -/
def viewOf (p : Manager) (world : WorldId) : View where
  entry := p.surroundings.registry.get? world
  ticker := p.tickers.get? world
  errand := p.errand.filter fun e => decide (e.world? = some world)
  events := p.surroundings.log.about world

def phase? (p : Manager) (a : WorldId) : Option Phase := (p.tickers.get? a).map (·.phase)

variable (p : Manager) (a : WorldId)

@[simp]
theorem viewOf_tell (world : WorldId) (n : WorldNotice) :
    (p.tell world n).viewOf a = p.viewOf a := rfl

@[simp]
theorem viewOf_project (world : WorldId) (e : Event) :
    (p.project world e).viewOf a = p.viewOf a := by
  have hlog := Ticker.project_log p.surroundings world e
  have hregistry := Ticker.project_registry p.surroundings world e
  simp only [viewOf, project, hlog, hregistry]

@[simp]
theorem viewOf_finish (result : Except ManagerError Unit) :
    (p.finish result).viewOf a = { p.viewOf a with errand := none } := rfl

@[simp]
theorem viewOf_withRegistry (registry : Registry) :
    (p.withRegistry registry).viewOf a = { p.viewOf a with entry := registry.get? a } := rfl

/-- A process whose registry has a new entry of one world. -/
def withEntry (b : WorldId) (entry : World) : Manager :=
  p.withRegistry ⟨p.surroundings.registry.table.set b entry⟩

theorem viewOf_withEntry_self (entry : World) :
    (p.withEntry a entry).viewOf a = { p.viewOf a with entry := some entry } := by
  rw [withEntry, viewOf_withRegistry, Registry.get?_set, if_pos rfl]

theorem viewOf_withEntry {a b : WorldId} (hne : a ≠ b) (entry : World) :
    (p.withEntry b entry).viewOf a = p.viewOf a := by
  rw [withEntry, viewOf_withRegistry, Registry.get?_set, if_neg hne]
  rfl

theorem viewOf_withEntry_congr {p p' : Manager} {b : WorldId}
    (hviews : ∀ a, p'.viewOf a = p.viewOf a) (entry : World) (a : WorldId) :
    (p'.withEntry b entry).viewOf a = (p.withEntry b entry).viewOf a := by
  by_cases hne : a = b
  · subst hne
    rw [viewOf_withEntry_self, viewOf_withEntry_self, hviews]
  · rw [viewOf_withEntry p' hne, viewOf_withEntry p hne, hviews]

theorem viewOf_spawnAt (order : SpawnOrder) (stage : SpawnStage) :
    (p.spawnAt order stage).viewOf a =
      { p.viewOf a with
        errand := if order.world = a then some (.spawn order stage) else none } := by
  by_cases h : order.world = a <;> simp [viewOf, spawnAt, Errand.world?, Option.filter, h]

theorem viewOf_stopAt (world : WorldId) (stage : StopStage) :
    (p.stopAt world stage).viewOf a =
      { p.viewOf a with errand := if world = a then some (.stop world stage) else none } := by
  by_cases h : world = a <;> simp [viewOf, stopAt, Errand.world?, Option.filter, h]

theorem planFor_eq (m : Moment) (known : World) :
    p.planFor m known = known.planAt p.wiring.clock.tickInterval m.wall := rfl

/-- Nobody asks anything about a world whose errand is about another one. -/
theorem errand_eq_none {errand : Errand} {world : WorldId} (herrand : p.errand = some errand)
    (hworld : errand.world? = some world) (hne : a ≠ world) : (p.viewOf a).errand = none := by
  have hother : some world ≠ some a := fun heq => hne (Option.some.inj heq).symm
  simp [viewOf, herrand, hworld, Option.filter, hother]

theorem errand_eq_some {errand : Errand} {world : WorldId} (herrand : p.errand = some errand)
    (hworld : errand.world? = some world) : (p.viewOf world).errand = some errand := by
  simp [viewOf, herrand, hworld, Option.filter]

theorem errand_eq_none_of_not_isBusy (h : p.isBusy = false) : (p.viewOf a).errand = none := by
  rw [viewOf]
  simp only
  match herrand : p.errand with
  | none => rfl
  | some (.spawn order stage) => simp [isBusy, herrand] at h
  | some (.stop world stage) => simp [isBusy, herrand] at h
  | some (.over result) => rfl

/-- The view of a world when an errand about another one ends or goes on. -/
theorem viewOf_eq_self {p : Manager} {a : WorldId} (h : (p.viewOf a).errand = none) :
    { p.viewOf a with errand := none } = p.viewOf a := by
  rw [← h]

theorem launch_wiring (order : SpawnOrder) (version : Count) (weatherSyncedAt : Duration)
    (plan : Option CatchUpPlan) :
    (p.launch order version weatherSyncedAt plan).wiring = p.wiring := by
  rw [launch]
  split <;> rfl

theorem viewOf_launch {order : SpawnOrder} {version : Count} {weatherSyncedAt : Duration}
    {plan : Option CatchUpPlan} {t : Ticker}
    (hnew : Ticker.new? p.wiring.clock order.world order.dilation version weatherSyncedAt plan =
      some t) :
    (p.launch order version weatherSyncedAt plan).viewOf a =
      { p.viewOf a with
        ticker := if a = order.world then some t else (p.viewOf a).ticker
        errand := none } := by
  simp only [launch, hnew, viewOf_finish, viewOf_tell]
  simp only [viewOf, WorldTable.get?_set]

end Manager

end WorldClock
