import WorldClock.Proofs.Manager.Observation

/-!
# Services

A world is served by one driver after another. A `Service` is what an observer of the world notes of
one of them: it opens when the log takes the event of its spawn, gets its plan of a catch-up when
its ticker starts, and ends when its stop is done, when its spawn comes to nothing, or when the
process dies (`Manager.services`). The grammar of a lifecycle is told in these terms: what a service
writes (`Service.Writes`), and that one follows the other (`Succession`).
-/

namespace WorldClock

/-! ### Marks -/

/-- What the grammar of a lifecycle sees of an event. -/
inductive Mark where
  | created (resumed : Bool)
  | ticked (catchUp : Bool)
  | paused
  | resumed (units : Count)
deriving DecidableEq

def Details.mark : Details → Mark
  | .created d => .created d.resumed
  | .ticked d => .ticked d.catchUp
  | .paused _ => .paused
  | .resumed d => .resumed d.replayedUnits

def Event.mark? (e : Event) : Option Mark := (e.kind?.bind e.details?).map Details.mark

theorem Event.Tells.mark?_eq {e : Event} {a : WorldId} {d : Details} (h : e.Tells a d) :
    e.mark? = some d.mark := by
  rw [mark?, h.kind, Option.bind_some, h.details, Option.map_some]

theorem SpawnOrder.mark?_creation {order : SpawnOrder} {w : Wiring} (h : order.IsAccepted w)
    (a : WorldId) (version : Count) (now : Instant) (resumed : Bool) :
    (order.creation a version now resumed).mark? = some (.created resumed) := by
  have hreadable : (Details.created ⟨order.name, order.dilation, resumed⟩).IsReadable :=
    order.isFinite_dilation h
  obtain ⟨d', hagrees, htells⟩ := Event.tells_ofWorld a version now hreadable
  rw [creation, htells.mark?_eq]
  cases d' with
  | created d => exact congrArg (some ∘ Mark.created) hagrees.2.symm
  | ticked d | paused d | resumed d => cases hagrees

/-! ### What is noted of a driver -/

/-- How a service ends. -/
inductive Ending where
  /-- The log has taken the pause. -/
  | stopped
  /-- The process has died before. -/
  | killed
  /-- The spawn has come to nothing after the log had taken its event. -/
  | abandoned
deriving DecidableEq

structure Service where
  resumes : Bool
  /-- The catch-up that its ticker has started with. -/
  plan : Option CatchUpPlan
  ending : Option Ending
deriving DecidableEq

/-- A turn that the service of a world takes. -/
inductive Turn where
  | opens (resumes : Bool)
  | launches (plan : Option CatchUpPlan)
  | ends (ending : Ending)

namespace Service

/-- The units of the catch-up; none before its ticker starts. -/
def planned (s : Service) : Nat :=
  match s.plan with
  | some plan => plan.units.toNat
  | none => 0

/-- What has ended does not end again. -/
def close (s : Service) (ending : Ending) : Service :=
  if s.ending = none then { s with ending := some ending } else s

/-- The services of a world, the latest one first, after a turn. -/
def take (services : List Service) : Turn → List Service
  | .opens resumes => ⟨resumes, none, none⟩ :: services
  | .launches plan => services.modifyHead fun s => { s with plan := plan }
  | .ends ending => services.modifyHead (·.close ending)

end Service

def Phase.plan? : Phase → Option CatchUpPlan
  | .starting plan => plan
  | _ => none

namespace View

/-- How the service of a world ends, if it does so now. -/
def ending (v : View) : Ending :=
  match v.errand with
  | some (.stop _ (.recording filing _ _)) => if filing.isStored then .stopped else .killed
  | _ => .killed

/-- The turn that shows in the errand of a world before and after a move. -/
def turn? (v v' : View) : Option Turn :=
  match v.errand, v'.errand with
  | some (.spawn _ (.creating f)), some (.spawn _ (.creating f')) =>
    if !f.isStored && f'.isStored then some (.opens false) else none
  | some (.spawn _ (.announcing _ f)), some (.spawn _ (.announcing _ f')) =>
    if !f.isStored && f'.isStored then some (.opens true) else none
  | some (.spawn _ _), none =>
    match v'.ticker with
    | some t => some (.launches t.phase.plan?)
    | none => some (.ends .abandoned)
  | some (.stop _ (.recording ..)), none => some (.ends v.ending)
  | _, _ => none

def noteTurn (v : View) (i : Incident) (v' : View) (services : List Service) : List Service :=
  match i with
  | .death _ _ => Service.take services (.ends v.ending)
  | .move _ _ => ((v.turn? v').map (Service.take services)).getD services

end View

namespace Manager

/-- The services of a world in a course, the latest one first. -/
def services (p : Manager) (a : WorldId) (course : List Incident) : List Service :=
  p.observe a View.noteTurn [] course

/-- Every append about a world stores its event, no ticker of it breaks down, and every process
announces what it resumes. -/
def runsWell (p : Manager) (a : WorldId) (course : List Incident) : Bool :=
  p.wiring.clock.announceResume && p.throughout a (fun v i v' => match i with
    | .move _ _ => !v.loses v' && !v'.isBroken
    | .death wiring _ => wiring.clock.announceResume) course

end Manager

/-! ### The grammar of a lifecycle -/

namespace Service

/-- What a driver writes that ticks by the clock. -/
inductive Steady (s : Service) : List Mark → Prop where
  | fromCreation (hresumes : s.resumes = false) (j : Nat) :
    Steady s (List.replicate j (.ticked false))
  | fromCatchUp {plan : CatchUpPlan} (hresumes : s.resumes = true) (hplan : s.plan = some plan)
    (j : Nat) :
    Steady s (List.replicate plan.units.toNat (.ticked true) ++
      .resumed plan.units :: List.replicate j (.ticked false))

/-- What a driver writes between its creation and its pause. One that is paused in its catch-up has
made less than all units of it. -/
inductive Acts (s : Service) (paused : Bool) : List Mark → Prop where
  | steady {acts : List Mark} (hsteady : s.Steady acts) : Acts s paused acts
  | replaying {k : Nat} (hresumes : s.resumes = true) (hk : k ≤ s.planned)
    (hcut : k = s.planned → paused = false) : Acts s paused (List.replicate k (.ticked true))

def written (s : Service) (acts : List Mark) (paused : Bool) : List Mark :=
  .created s.resumes :: acts ++ if paused then [.paused] else []

/-- What a driver writes. Its pause is there exactly if it was stopped. -/
inductive Writes (s : Service) : List Mark → Prop where
  | intro {acts : List Mark} (paused : Bool) (hacts : s.Acts paused acts)
    (hending : ∀ ending, s.ending = some ending → (paused = true ↔ ending = .stopped)) :
    Writes s (s.written acts paused)

end Service

/-- The latest of these services, if there is any, has ended. -/
def AreOver (services : List Service) : Prop := ∀ s ∈ services.head?, s.ending ≠ none

/-- The history of services, the latest one first: each is over when the next one opens, and all but
the first resume. -/
inductive Succession : List Service → List Mark → Prop where
  | nil : Succession [] []
  | cons {s : Service} {services : List Service} {marks ms : List Mark}
    (hpast : Succession services marks) (hover : AreOver services)
    (hresumes : s.resumes = !services.isEmpty) (hwrites : s.Writes ms) :
    Succession (s :: services) (marks ++ ms)

namespace Service

variable {s : Service} {acts : List Mark} {paused : Bool}

theorem resumes_close (s : Service) (ending : Ending) : (s.close ending).resumes = s.resumes := by
  rw [close]
  split <;> rfl

theorem plan_close (s : Service) (ending : Ending) : (s.close ending).plan = s.plan := by
  rw [close]
  split <;> rfl

theorem Steady.close (h : s.Steady acts) (ending : Ending) : (s.close ending).Steady acts := by
  cases h with
  | fromCreation hresumes j => exact .fromCreation ((s.resumes_close ending).trans hresumes) j
  | fromCatchUp hresumes hplan j =>
    exact .fromCatchUp ((s.resumes_close ending).trans hresumes)
      ((s.plan_close ending).trans hplan) j

theorem written_append (s : Service) (acts new : List Mark) :
    s.written (acts ++ new) false = s.written acts false ++ new := by
  simp [written]

theorem Acts.close (h : s.Acts paused acts) (ending : Ending) :
    (s.close ending).Acts paused acts := by
  cases h with
  | steady hsteady => exact .steady (hsteady.close ending)
  | replaying hresumes hk hcut =>
    rw [← show (s.close ending).planned = s.planned by
      rw [planned, plan_close, ← planned]] at hk hcut
    exact .replaying ((s.resumes_close ending).trans hresumes) hk hcut

end Service

theorem Succession.eq_nil_iff {services : List Service} {marks : List Mark}
    (h : Succession services marks) : services = [] ↔ marks = [] := by
  cases h with
  | nil => exact ⟨fun _ => rfl, fun _ => rfl⟩
  | cons hpast hover hresumes hwrites =>
    cases hwrites with
    | intro paused hacts hending => simp [Service.written]

end WorldClock
