import WorldClock.Proofs.Manager.Courses

/-!
# Processes side by side

A `Fleet` is any number of processes that write to one log at the same time. Processes come and die
whenever they like, and take turns in any order. Each sees the log as all of them have left it, and
nothing else of the others.

So what is kept of the view of a world, as any one process has it, is kept by a step of that process
itself, and by the events that the others add to the history (`Fleet.Holds.meet`).
-/

namespace WorldClock

theorem View.Coherent.withEvents {w : Wiring} {a : WorldId} {v : View} (hv : v.Coherent w a)
    (events : List Event) : ({ v with events := events } : View).Coherent w a :=
  ⟨hv.entry, hv.ticker, fun e herrand => hv.errand e herrand⟩

namespace Manager

/-- A process that sees a log. -/
def withLog (p : Manager) (log : EventLog) : Manager :=
  { p with surroundings := { p.surroundings with log := log } }

theorem Coherent.withLog {p : Manager} (hp : p.Coherent) (log : EventLog) :
    (p.withLog log).Coherent := fun a => (hp a).withEvents (log.about a)

end Manager

/-- A wiring of a new process is one with which a process starts. -/
def Incident.IsUsable : Incident → Prop
  | .move _ _ => True
  | .death wiring _ => wiring.IsUsable

/-- Any number of processes over one log. -/
structure Fleet where
  log : EventLog
  processes : List Manager

namespace Fleet

/-- Something that happens to the processes over one log. -/
inductive Occurrence where
  | joins (wiring : Wiring) (projections : Option (Dispatcher ReadModel))
  | meets (process : Nat) (i : Incident)

def Occurrence.IsUsable : Occurrence → Prop
  | .joins wiring _ => wiring.IsUsable
  | .meets _ i => i.IsUsable

/-- An empty log that no process writes to. -/
def empty : Fleet := ⟨EventLog.empty, []⟩

def meet (f : Fleet) : Occurrence → Fleet
  | .joins wiring projections =>
    { f with processes := f.processes ++ [Manager.start wiring f.log projections] }
  | .meets n i =>
    match f.processes[n]? with
    | none => f
    | some p =>
      let p := (p.withLog f.log).meet i
      ⟨p.surroundings.log, f.processes.set n p⟩

def live (f : Fleet) (course : List Occurrence) : Fleet := course.foldl meet f

/-- The processes of a fleet fit together, and so do they with what is kept of the view that each
has of a world. -/
structure Holds (Keeps : WorldId → View → Prop) (f : Fleet) : Prop where
  log : ∀ a, Keeps a ⟨none, none, none, f.log.about a⟩
  usable : ∀ p ∈ f.processes, p.wiring.IsUsable
  coherent : ∀ p ∈ f.processes, p.Coherent
  views : ∀ p ∈ f.processes, ∀ a, Keeps a ((p.withLog f.log).viewOf a)

/-- What is kept of a view by whatever happens to it. -/
structure Kept (Keeps : WorldId → View → Prop) : Prop where
  step : ∀ w m a v v', w.IsUsable → v.Coherent w a → Keeps a v → v.Step w m a v' → Keeps a v'
  update : ∀ a v entry new, Keeps a v → v.entry = some entry →
    Keeps a { v with entry := some new }
  death : ∀ a v, Keeps a v → Keeps a v.afterDeath
  /-- Another process, which has seen the same history, adds to it. -/
  others : ∀ a u v, Keeps a u → Keeps a v → (u.events ≠ [] → v.events ≠ []) →
    Keeps a { u with events := v.events }

end Fleet

theorem View.Step.events_ne_nil {w : Wiring} {m : Moment} {a : WorldId} {v v' : View}
    (h : v.Step w m a v') (hne : v.events ≠ []) : v'.events ≠ [] := by
  cases h with
  | fileCreation herrand hfiles | fileAnnouncement herrand hfiles | filePause herrand hfiles
  | fileTick hticker hphase hfiles | fileResumption hticker hphase hfiles =>
    obtain heq | ⟨heq, -⟩ := hfiles.events_eq
    · rwa [heq]
    · rw [heq]
      exact List.cons_ne_nil _ _
  | _ => exact hne

namespace Manager

/-- No history gets lost. -/
theorem events_ne_nil_of_meet {p : Manager} (hp : p.Coherent) (i : Incident) {a : WorldId}
    (hne : (p.viewOf a).events ≠ []) : ((p.meet i).viewOf a).events ≠ [] := by
  cases i with
  | death wiring projections => exact hne
  | move m move =>
    obtain heq | hstep | ⟨change, entry, -, -, -, heq⟩ := apply_cases hp m move a
    · exact heq ▸ hne
    · exact hstep.events_ne_nil hne
    · exact heq ▸ hne

theorem keeps_meet {Keeps : WorldId → View → Prop} (hkept : Fleet.Kept Keeps) {p : Manager}
    (hp : p.Coherent) (hw : p.wiring.IsUsable) {a : WorldId} (hkeeps : Keeps a (p.viewOf a))
    (i : Incident) : Keeps a ((p.meet i).viewOf a) := by
  cases i with
  | death wiring projections => exact hkept.death a _ hkeeps
  | move m move =>
    obtain heq | hstep | ⟨change, entry, -, hentry, -, heq⟩ := apply_cases hp m move a
    · exact heq ▸ hkeeps
    · exact hkept.step _ m a _ _ hw (hp a) hkeeps hstep
    · exact heq ▸ hkept.update a _ entry _ hkeeps hentry

theorem isUsable_meet_of_isUsable {p : Manager} (hp : p.Coherent) (hw : p.wiring.IsUsable)
    {i : Incident} (hi : i.IsUsable) : (p.meet i).wiring.IsUsable := by
  cases i with
  | move m move =>
    change (p.apply m move).wiring.IsUsable
    rwa [apply_wiring hp]
  | death wiring projections => exact hi

end Manager

namespace Fleet

variable {Keeps : WorldId → View → Prop}

theorem holds_empty (hkeeps : ∀ a, Keeps a ⟨none, none, none, []⟩) : empty.Holds Keeps :=
  ⟨hkeeps, by simp [empty], by simp [empty], by simp [empty]⟩

/-- Whatever happens to a fleet, what is kept of a view holds of the views of all its processes. -/
theorem Holds.meet (hkept : Kept Keeps) {f : Fleet} (hf : f.Holds Keeps) {o : Occurrence}
    (ho : o.IsUsable) : (f.meet o).Holds Keeps := by
  cases o with
  | joins wiring projections =>
    refine ⟨hf.log, ?_, ?_, ?_⟩ <;> intro p hmem <;>
      obtain hmem | hmem := List.mem_append.mp hmem
    · exact hf.usable p hmem
    · exact List.mem_singleton.mp hmem ▸ ho
    · exact hf.coherent p hmem
    · exact List.mem_singleton.mp hmem ▸ Manager.coherent_start wiring f.log projections
    · exact hf.views p hmem
    · intro a
      rw [List.mem_singleton.mp hmem]
      exact hf.log a
  | meets n i =>
    rw [Fleet.meet]
    split
    · exact hf
    next p hget =>
    have hmem : p ∈ f.processes := List.mem_of_getElem? hget
    have hp : (p.withLog f.log).Coherent := (hf.coherent p hmem).withLog f.log
    have hself (a : WorldId) : Keeps a (((p.withLog f.log).meet i).viewOf a) :=
      Manager.keeps_meet hkept hp (hf.usable p hmem) (hf.views p hmem a) i
    refine ⟨fun a => hkept.death a _ (hself a), ?_, ?_, ?_⟩ <;> intro q hq <;>
      obtain hq | rfl := List.mem_or_eq_of_mem_set hq
    · exact hf.usable q hq
    · exact Manager.isUsable_meet_of_isUsable hp (hf.usable p hmem) ho
    · exact hf.coherent q hq
    · exact hp.meet i
    · -- Another process sees the same history as before, and what this one has added.
      intro a
      exact hkept.others a _ _ (hf.views q hq a) (hself a)
        (Manager.events_ne_nil_of_meet hp i (a := a))
    · exact hself

theorem Holds.live (hkept : Kept Keeps) {f : Fleet} (hf : f.Holds Keeps)
    {course : List Occurrence} (hcourse : ∀ o ∈ course, o.IsUsable) :
    (f.live course).Holds Keeps := by
  induction course generalizing f with
  | nil => exact hf
  | cons o course ih =>
    exact ih (hf.meet hkept (hcourse o List.mem_cons_self))
      fun o' ho' => hcourse o' (List.mem_cons_of_mem _ ho')

end Fleet

end WorldClock
