import WorldClock.Engine.Run
import WorldClock.Proofs.Manager.Dispatches
import WorldClock.Proofs.Rebuilding

/-!
# Live timelines

An engine rebuilds the timelines of its worlds when it starts and hands every event on that its
tickers and errands have stored. So the timelines of a running process are those of its log, but for
an event that is stored and whose append is not yet answered (`Manager.Tracks`). Where nothing is on
its way, a rebuild from the log gives the same timelines again (`Manager.live_timeline`).
-/

namespace WorldClock

/-! ### Stories -/

theorem Event.Tells.leads {e : Event} {world : WorldId} {d : Details} (h : e.Tells world d)
    (t : Timeline) : Timeline.Leads world e (some t) (some (t.after e d)) := by
  cases d with
  | resumed d =>
    have htold : e.told? = some (.resumed ⟨0, 0⟩) := by
      rw [Event.told?, h.kind]
      rfl
    exact .next (d := .resumed ⟨0, 0⟩) htold
  | created d | ticked d | paused d =>
    refine .next ?_
    rw [Event.told?, h.kind]
    exact h.details

theorem Event.Tells.founds {e : Event} {world : WorldId} {d : CreatedDetails}
    (h : e.Tells world (.created d)) :
    Timeline.Leads world e none (some (Timeline.starting world e d)) := by
  refine .founded ?_
  rw [Event.told?, h.kind]
  exact h.details

/-- The events of a story lead to its timeline. -/
theorem Story.leadsThrough {world : WorldId} {events : List Event} {t : Timeline}
    (h : Story world events t) : Timeline.LeadsThrough world events.reverse none (some t) := by
  induction h with
  | creation htells => exact .cons htells.founds .nil
  | @next e events t d hstory htells ih =>
    rw [List.reverse_cons, Timeline.leadsThrough_append]
    exact ⟨some t, ih, .cons (htells.leads t) .nil⟩

theorem Story.aggregateId_eq {world : WorldId} {events : List Event} {t : Timeline}
    (h : Story world events t) : ∀ e ∈ events, e.aggregateId = world.text := by
  induction h with
  | creation htells => simpa using htells.aggregateId
  | next hstory htells ih => exact List.forall_mem_cons.mpr ⟨htells.aggregateId, ih⟩

/-- A timeline that has seen a story up to its last event is led on by that event. -/
theorem Story.leads_last {world : WorldId} {e : Event} {events : List Event} {t : Timeline}
    {known : Option Timeline} (h : Story world (e :: events) t)
    (hknown : Timeline.LeadsThrough world events.reverse none known) :
    Timeline.Leads world e known (some t) := by
  have hwhole := h.leadsThrough
  rw [List.reverse_cons, Timeline.leadsThrough_append] at hwhole
  obtain ⟨next, hnext, hlast⟩ := hwhole
  obtain rfl := hknown.unique hnext
  cases hlast with
  | cons hfirst hrest =>
    cases hrest
    exact hfirst

/-! ### One dispatcher -/

namespace ReadModel

/-- The dispatcher of an engine. -/
def keeping (ts : Timelines) : Dispatcher ReadModel := ⟨[ofTimelines ts]⟩

theorem keeping_empty :
    Dispatcher.empty.register timelineProjection = keeping WorldTable.empty := rfl

theorem rebuild_keeping {log : EventLog} {text : String} {ts ts' : Timelines}
    (h : (log.byAggregate text 1).foldlM Timelines.handle ts = .ok ts') :
    (keeping ts).rebuild log text = (keeping ts', .ok (log.byAggregate text 1).length) :=
  Dispatcher.projectAll_of_takes (.cons (takes_ofTimelines h) .nil)

theorem project_keeping (ts : Timelines) (e : Event) :
    ((keeping ts).project e).1 = keeping (match ts.handle e with
      | .ok ts' => ts'
      | .error _ => ts) := by
  rw [Dispatcher.project, keeping, Dispatcher.feed]
  cases hhandle : ts.handle e with
  | ok ts' => simp [ofTimelines, timelineProjection, Except.map, hhandle, Dispatcher.feed, keeping]
  | error refusal => simp [ofTimelines, timelineProjection, Except.map, hhandle, keeping]

end ReadModel

theorem Surroundings.projections_project (s : Surroundings) (world : WorldId) (e : Event) :
    (s.project world e).projections = s.projections.map fun d => (d.project e).1 := by
  rw [project]
  cases hprojections : s.projections with
  | none => simpa using hprojections
  | some d =>
    simp only [Option.map_some]
    split
    · next heq => rw [heq]
    · next heq =>
      rw [heq]
      rfl

/-! ### What a running process has handed on -/

namespace View

/-- The events of a world that the projections have seen: all of its history, but for one that is
stored and whose append is not over. -/
inductive HandedOn (v : View) : List Event → Prop where
  | all (hpending : ∀ f, v.filing? = some f → f.isStored = false) : HandedOn v v.events
  | allButLast {f : Filing} {earlier : List Event} (hfiling : v.filing? = some f)
    (hverdict : f.verdict = some (.ok ())) (hevents : v.events = f.event :: earlier) :
    HandedOn v earlier

/-- An append that the log has taken the event of ends without an answer. -/
def abandons (v : View) (i : Incident) (v' : View) : Bool :=
  v.filing?.any (·.isStored) && v'.filing?.isNone &&
    match i with
    | .move _ move => !move.isAnswer
    | .death _ _ => true

variable {w : Wiring} {m : Moment} {a : WorldId} {v v' : View} {handed : List Event}

theorem isSome_of_abandons {f : Filing} {move : Move} (h : v.abandons (.move m move) v' = false)
    (hfiling : v.filing? = some f) (hverdict : f.verdict = some (.ok ()))
    (hpending : move.isAnswer = true → v'.filing? ≠ none) : v'.filing? ≠ none := by
  cases hanswer : move.isAnswer with
  | true => exact hpending hanswer
  | false =>
    have hstored := Filing.isStored_iff.mpr hverdict
    intro hnone
    simp [abandons, hfiling, hstored, hnone, hanswer] at h

/-- Where nothing is handed on, what has been handed on stays the same. -/
theorem HandedOn.waits (h : v.HandedOn handed) (hprogress : v.Progress v')
    (hkept : ∀ f, v.filing? = some f → f.verdict = some (.ok ()) → v'.filing? ≠ none) :
    v'.HandedOn handed := by
  cases hprogress with
  | waits hfiling _ _ hevents =>
    cases h with
    | all hpending =>
      rw [← hevents]
      exact .all (by rwa [hfiling])
    | allButLast hsome hverdict hcons =>
      exact .allButLast (hfiling.trans hsome) hverdict (hevents.trans hcons)
  | begins hbefore _ hafter _ _ hevents =>
    cases h with
    | all hpending =>
      rw [← hevents]
      refine .all fun f hf => ?_
      obtain rfl := Option.some.inj (hafter.symm.trans hf)
      rfl
    | allButLast hsome =>
      rw [hbefore] at hsome
      cases hsome
  | @files f f' hbefore hafter hfiles =>
    cases h with
    | all hpending =>
      generalize hevents : v'.events = events' at hfiles
      cases hfiles with
      | again hverdict =>
        rw [← hevents]
        exact .all fun g hg => by
          obtain rfl := Option.some.inj (hafter.symm.trans hg)
          exact hpending _ hbefore
      | stored hverdict => exact .allButLast hafter rfl hevents
      | refused error hverdict =>
        rw [← hevents]
        refine .all fun g hg => ?_
        obtain rfl := Option.some.inj (hafter.symm.trans hg)
        rfl
    | allButLast hsome hverdict hcons =>
      obtain rfl := Option.some.inj (hbefore.symm.trans hsome)
      generalize hevents : v'.events = events' at hfiles
      cases hfiles with
      | again => exact .allButLast hafter hverdict (hevents.trans hcons)
      | stored hnone | refused _ hnone =>
        rw [hnone] at hverdict
        cases hverdict
  | ends _ hafter _ hevents | restarts _ hafter hevents =>
    cases h with
    | all hpending =>
      rw [← hevents]
      exact .all (by simp [hafter])
    | allButLast hsome hverdict => exact absurd hafter (hkept _ hsome hverdict)

/-- An append that is over has left the history as it was. -/
theorem Progress.events_eq_of_over {f : Filing} (h : v.Progress v') (hbefore : v.filing? = some f)
    (hafter : v'.filing? = none) : v'.events = v.events := by
  cases h with
  | waits _ _ _ hevents | ends _ _ _ hevents | restarts _ _ hevents => exact hevents
  | begins hnone =>
    rw [hbefore] at hnone
    cases hnone
  | files _ hsome =>
    rw [hafter] at hsome
    cases hsome

/-- An append about a world is of an event of the world. -/
theorem Coherent.aggregateId_eq {f : Filing} (h : v.Coherent w a) (hfiling : v.filing? = some f) :
    f.event.aggregateId = a.text := by
  cases hticker : v.ticker with
  | some t =>
    rw [filing?_of_ticker hticker] at hfiling
    exact (h.ticker t hticker).2.2.1 f hfiling
  | none =>
    cases herrand : v.errand with
    | none => simp [filing?_of_idle hticker herrand] at hfiling
    | some errand =>
      rw [filing?_of_errand hticker herrand] at hfiling
      have hsupports := h.errand errand herrand
      match errand with
      | .spawn _ (.creating _) | .spawn _ (.announcing _ _) =>
        obtain rfl := Option.some.inj hfiling
        exact hsupports.2.2.2.2
      | .stop _ (.recording ..) =>
        obtain rfl := Option.some.inj hfiling
        exact hsupports.2.2.2
      | .spawn _ .readingHistory | .spawn _ (.readingVersion _) | .stop _ .joining
      | .stop _ .readingVersion | .over _ => cases hfiling

theorem HandedOn.eq_events (h : v.HandedOn handed)
    (hpending : ∀ f, v.filing? = some f → f.isStored = false) : handed = v.events := by
  cases h with
  | all => rfl
  | allButLast hsome hverdict =>
    have hstored := Filing.isStored_iff.mpr hverdict
    rw [hpending _ hsome] at hstored
    cases hstored

end View

namespace Manager

/-- The timeline of a world that a process keeps is that of the events which it has handed on. -/
def Tracks (p : Manager) (a : WorldId) : Prop :=
  ∃ ts handed, p.projections = some (ReadModel.keeping ts) ∧ (p.viewOf a).HandedOn handed ∧
    Timeline.LeadsThrough a handed.reverse none (ts.get? a)

variable {p : Manager} {m : Moment} {a : WorldId}

theorem project_projections {ts : Timelines}
    (hprojections : p.projections = some (ReadModel.keeping ts)) (world : WorldId) (e : Event) :
    (p.project world e).projections =
      some (ReadModel.keeping (match ts.handle e with
        | .ok ts' => ts'
        | .error _ => ts)) := by
  rw [projections] at hprojections
  rw [projections, project, Surroundings.projections_project, hprojections, Option.map_some,
    ReadModel.project_keeping]

/-- A move of its own keeps the timeline of a world on the track of its history, as long as it ends
no append whose event is stored without answering it. -/
theorem Tracks.apply (h : p.Tracks a) (hp : p.Coherent)
    (hsound : (p.viewOf a).IsSound p.wiring a) {move : Move} (hown : move.isOwn = true)
    (hanswered : (p.viewOf a).abandons (.move m move) ((p.apply m move).viewOf a) = false) :
    (p.apply m move).Tracks a := by
  obtain ⟨ts, handed, hprojections, hhanded, hleads⟩ := h
  have hstep := apply_step hp m hown a
  cases dispatches_apply (m := m) hp hown with
  | nothing hsame hpending =>
    refine ⟨ts, handed, hsame.trans hprojections, ?_, hleads⟩
    obtain hstays | hsteps := hstep
    · rwa [hstays]
    · exact hhanded.waits (hsteps.progress hsound) fun f hfiling hverdict =>
        View.isSome_of_abandons hanswered hfiling hverdict fun hanswer =>
          hpending hanswer a f hfiling hverdict
  | @stored b f hbefore hverdict hafter hprojects =>
    rw [project_projections hprojections] at hprojects
    obtain ⟨c, hacts⟩ := apply_actsOn hp m hown
    have hacting : b = c := by
      refine Decidable.byContradiction fun hne => ?_
      rw [hacts.others b hne, hbefore] at hafter
      cases hafter
    subst hacting
    by_cases hne : a = b
    · subst hne
      have hevents : ((p.apply m move).viewOf a).events = (p.viewOf a).events := by
        obtain hstays | hsteps := hstep
        · rw [hstays]
        · exact (hsteps.progress hsound).events_eq_of_over hbefore hafter
      cases hhanded with
      | all hpending =>
        have hstored := Filing.isStored_iff.mpr hverdict
        rw [hpending f hbefore] at hstored
        cases hstored
      | allButLast hsome _ hcons =>
        obtain rfl := Option.some.inj (hbefore.symm.trans hsome)
        obtain ⟨t, hstory⟩ := hsound.chronicled.story (by simp [hcons])
        rw [hcons] at hstory
        have haggregate := hstory.aggregateId_eq _ List.mem_cons_self
        obtain ⟨ts', hhandle, hget⟩ := Timelines.handle_of_leads
          (haggregate ▸ WorldId.ofText?_text a) (hstory.leads_last hleads)
        rw [hhandle] at hprojects
        refine ⟨ts', _, hprojects, .all (by simp [hafter]), ?_⟩
        rw [hget, hevents, hcons]
        exact hstory.leadsThrough
    · have haggregate := (hp b).aggregateId_eq hbefore
      refine ⟨_, handed, hprojects, ?_, ?_⟩
      · rwa [hacts.others a hne]
      · split
        · next ts' hhandle =>
          rwa [Timelines.get?_of_handle (haggregate ▸ WorldId.ofText?_text b) hne hhandle]
        · exact hleads

/-- A process keeps on the track of the history of a world as long as it ends no append whose event
is stored without answering it. -/
theorem tracks_run (hp : p.Coherent) (hsound : (p.viewOf a).IsSound p.wiring a)
    (h : p.Tracks a) {moves : List (Moment × Move)} (hown : ∀ move ∈ moves, move.2.isOwn = true)
    (hanswered : p.throughout a (fun v i v' => !v.abandons i v')
      (moves.map fun (m, move) => .move m move) = true) :
    ((p.run moves).viewOf a).IsSound (p.run moves).wiring a ∧ (p.run moves).Tracks a := by
  induction moves generalizing p with
  | nil => exact ⟨hsound, h⟩
  | cons first moves ih =>
    obtain ⟨m, move⟩ := first
    obtain ⟨hfirst, hrest⟩ := List.forall_mem_cons.mp hown
    rw [List.map_cons, throughout, Bool.and_eq_true, Bool.not_eq_true'] at hanswered
    have hi : (Incident.move m move).IsOwn := hfirst
    exact ih (hp.apply m move) (isSound_meet hp hsound hi)
      (h.apply hp hsound hfirst hanswered.1) hrest hanswered.2

end Manager

/-! ### Rebuilding from the log -/

/-- The history of a world in a log is such as managers write. -/
def EventLog.Records (log : EventLog) (a : WorldId) : Prop :=
  Ascends (log.about a) ∧ (log.about a ≠ [] → ∃ t, Story a (log.about a) t)

theorem EventLog.Records.leadsThrough {log : EventLog} {a : WorldId} (h : log.Records a) :
    ∃ known, Timeline.LeadsThrough a (log.about a).reverse none known := by
  by_cases hempty : log.about a = []
  · rw [hempty]
    exact ⟨none, .nil⟩
  · obtain ⟨t, ht⟩ := h.2 hempty
    exact ⟨some t, ht.leadsThrough⟩

/-- A rebuild of a world that the timelines do not know yet gives the timeline of its history. -/
theorem ReadModel.rebuild_of_records {log : EventLog} {a : WorldId} (h : log.Records a)
    {ts : Timelines} (hnone : ts.get? a = none) :
    ∃ ts', (keeping ts).rebuild log a.text = (keeping ts', .ok (log.byAggregate a.text 1).length) ∧
      Timeline.LeadsThrough a (log.about a).reverse none (ts'.get? a) ∧
      ∀ other, other ≠ a → ts'.get? other = ts.get? other := by
  have habout : ∀ e ∈ log.byAggregate a.text 1, WorldId.ofText? e.aggregateId = some a := by
    intro e he
    rw [EventLog.aggregateId_of_mem_byAggregate he, WorldId.ofText?_text]
  obtain ⟨known, hleads⟩ := h.leadsThrough
  rw [← EventLog.byAggregate_eq h.1] at hleads ⊢
  obtain ⟨ts', hfold, hget⟩ := Timelines.foldlM_of_leadsThrough habout (hnone ▸ hleads)
  exact ⟨ts', rebuild_keeping hfold, hget.symm ▸ hleads,
    fun other hne => Timelines.get?_of_foldlM habout hne hfold⟩

/-- An engine that starts rebuilds the timeline of each of its worlds. -/
theorem EngineStep.replayHistories_keeping {log : EventLog} (h : ∀ a, log.Records a)
    {worlds : List WorldSettings} (honce : (worlds.map (·.id)).Nodup) {ts : Timelines}
    (hnone : ∀ a ∈ worlds.map (·.id), ts.get? a = none) (engine : Engine) :
    ∃ ts' engine', replayHistories log worlds (ReadModel.keeping ts) engine =
        .ok (ReadModel.keeping ts') engine' ∧
      (∀ a ∈ worlds.map (·.id),
        Timeline.LeadsThrough a (log.about a).reverse none (ts'.get? a)) ∧
      ∀ a, a ∉ worlds.map (·.id) → ts'.get? a = ts.get? a := by
  induction worlds generalizing ts engine with
  | nil => exact ⟨ts, engine, rfl, by simp, fun _ _ => rfl⟩
  | cons w worlds ih =>
    rw [List.map_cons, List.nodup_cons] at honce
    rw [List.map_cons, List.forall_mem_cons] at hnone
    obtain ⟨next, hrebuild, hfirst, hothers⟩ := ReadModel.rebuild_of_records (h w.id) hnone.1
    have hnext : ∀ a ∈ worlds.map (·.id), next.get? a = none := by
      intro a ha
      rw [hothers a (by rintro rfl; exact honce.1 ha), hnone.2 a ha]
    let told := if 0 < (log.byAggregate w.id.text 1).length then
      engine.tell (.world w.id (.historyReplayed (log.byAggregate w.id.text 1).length)) else engine
    obtain ⟨ts', engine', hreplay, hrest, houtside⟩ := ih honce.2 hnext told
    refine ⟨ts', engine', ?_, ?_, ?_⟩
    · rw [replayHistories, hrebuild, ← hreplay]
      simp only [bind, told]
      split <;> rfl
    · rw [List.map_cons, List.forall_mem_cons]
      refine ⟨?_, hrest⟩
      rw [houtside w.id honce.1]
      exact hfirst
    · intro a ha
      rw [List.map_cons, List.mem_cons, not_or] at ha
      rw [houtside a ha.2, hothers a ha.1]

namespace Manager

/-- An engine starts over the log of earlier ones. It rebuilds the timelines of its worlds, each of
them once, and then spawns, ticks and stops whatever it will, with the projections attached. At
every point where no stored event of a world waits for the answer to its append, the timeline of the
world is the one that a fresh projection rebuilds from the log. Appends may fail in any way, and an
append that has stored its event is always answered. -/
theorem live_timeline {w₀ w : Wiring} (hw₀ : w₀.IsUsable) (hw : w.IsUsable)
    (projections₀ : Option (Dispatcher ReadModel)) {earlier : List Incident}
    (hearlier : ∀ i ∈ earlier, i.IsOwn) {worlds : List WorldSettings}
    (honce : (worlds.map (·.id)).Nodup) (engine : Engine) :
    let log := ((start w₀ .empty projections₀).live earlier).surroundings.log
    ∃ d engine', EngineStep.replayHistories log worlds
        (Dispatcher.empty.register ReadModel.timelineProjection) engine = .ok d engine' ∧
      ∀ moves : List (Moment × Move), (∀ move ∈ moves, move.2.isOwn = true) →
        ∀ a, a ∈ worlds.map (·.id) ∨ log.about a = [] →
          (start w log (some d)).throughout a (fun v i v' => !v.abandons i v')
            (moves.map fun (m, move) => .move m move) = true →
          let p := (start w log (some d)).run moves
          (∀ f, (p.viewOf a).filing? = some f → f.isStored = false) →
          ∃ fresh count, (Dispatcher.empty.register ReadModel.timelineProjection).rebuild
              p.surroundings.log a.text = (fresh, .ok count) ∧
            p.surroundings.projections.bind (ReadModel.timeline? · a) =
              ReadModel.timeline? fresh a := by
  intro log
  have hnothing (a : WorldId) : EventLog.empty.about a = [] := rfl
  have hold (a : WorldId) := isSound_live hw₀ projections₀ (hnothing a) hearlier
  have hrecords (a : WorldId) : log.Records a :=
    ⟨(hold a).chronicled.ascends, (hold a).chronicled.story⟩
  have hempty : ∀ a, (WorldTable.empty : Timelines).get? a = none := WorldTable.get?_empty
  rw [ReadModel.keeping_empty]
  obtain ⟨ts, engine', hreplay, hrebuilt, hothers⟩ := EngineStep.replayHistories_keeping hrecords
    honce (fun a _ => hempty a) engine
  refine ⟨_, engine', hreplay, fun moves hown a ha hanswered => ?_⟩
  intro p hpending
  have hstart : ((start w log (some (ReadModel.keeping ts))).viewOf a).IsSound w a :=
    (hold a).afterDeath hw
  have htracks : (start w log (some (ReadModel.keeping ts))).Tracks a := by
    refine ⟨ts, log.about a, rfl, .all (by rintro f ⟨⟩), ?_⟩
    by_cases hmem : a ∈ worlds.map (·.id)
    · exact hrebuilt a hmem
    · rw [hothers a hmem, WorldTable.get?_empty, ha.resolve_left hmem]
      exact .nil
  obtain ⟨hsound, ts', handed, hprojections, hhanded, hleads⟩ :=
    tracks_run (coherent_start w log _) hstart htracks hown hanswered
  have hrecorded : p.surroundings.log.Records a :=
    ⟨hsound.chronicled.ascends, hsound.chronicled.story⟩
  obtain ⟨fresh, hfresh, hknown, -⟩ := ReadModel.rebuild_of_records hrecorded (hempty a)
  refine ⟨_, _, hfresh, ?_⟩
  obtain rfl := hhanded.eq_events hpending
  have hsame : ts'.get? a = fresh.get? a := hleads.unique hknown
  exact (congrArg (Option.bind · (ReadModel.timeline? · a)) hprojections).trans hsame

/-- A world is created, and the process dies. -/
def createdOnce (world : WorldId) : List Incident :=
  ((pausedOnce world).take 4).map fun (m, move) => .move m move

/-- The world is restored and owes five ticks. The append of the first of them is lost. -/
def restoredOnce (world : WorldId) : List (Moment × Move) :=
  [(momentAt 570, .spawn ⟨world, "world", .one⟩), (momentAt 570, .read none),
    (momentAt 570, .read none), (momentAt 570, .file), (momentAt 570, .conclude .answered),
    (momentAt 570, .poll world), (momentAt 570, .poll world),
    (momentAt 570, .concludeFor world (.failed (.backend "lost"))), (momentAt 570, .poll world),
    (momentAt 570, .fileFor world), (momentAt 570, .concludeFor world .answered)]

/-- The world is taken up by a process that has replayed its history. Nothing is abandoned, nothing
is on its way to the log at the end, and the log has got another event. -/
def restoresWell (world : WorldId) : Bool :=
  let log := ((start .standard .empty none).live (createdOnce world)).surroundings.log
  match EngineStep.replayHistories log [⟨world, "world", .one⟩]
      (Dispatcher.empty.register ReadModel.timelineProjection) .idle with
  | .ok d _ =>
    let p := start .standard log (some d)
    p.throughout world (fun v i v' => !v.abandons i v')
        ((restoredOnce world).map fun (m, move) => .move m move) &&
      ((p.run (restoredOnce world)).viewOf world).filing?.isNone &&
      decide ((p.run (restoredOnce world)).surroundings.log.newestFirst.map (·.version) = [4, 2, 1])
  | .error _ _ => false

/-- The timeline passes over the tick that was lost and has the next one. -/
theorem live_timeline_of_restoredOnce :
    ∃ log d engine' p,
      log = ((start .standard .empty none).live (createdOnce ⟨⟨0⟩⟩)).surroundings.log ∧
      EngineStep.replayHistories log [⟨⟨⟨0⟩⟩, "world", .one⟩]
        (Dispatcher.empty.register ReadModel.timelineProjection) .idle = .ok d engine' ∧
      p = (start .standard log (some d)).run (restoredOnce ⟨⟨0⟩⟩) ∧
      p.surroundings.log.newestFirst.map (·.version) = [4, 2, 1] ∧
      ∃ fresh count, (Dispatcher.empty.register ReadModel.timelineProjection).rebuild
          p.surroundings.log (WorldId.text ⟨⟨0⟩⟩) = (fresh, .ok count) ∧
        p.surroundings.projections.bind (ReadModel.timeline? · ⟨⟨0⟩⟩) =
          ReadModel.timeline? fresh ⟨⟨0⟩⟩ := by
  have hearlier : ∀ i ∈ createdOnce ⟨⟨0⟩⟩, i.IsOwn := by
    simp [createdOnce, pausedOnce, Incident.IsOwn, Move.isOwn]
  have hown : ∀ move ∈ restoredOnce ⟨⟨0⟩⟩, move.2.isOwn = true := by
    simp [restoredOnce, Move.isOwn]
  have hworlds : (([⟨⟨⟨0⟩⟩, "world", .one⟩] : List WorldSettings).map (·.id)).Nodup := by
    decide +kernel
  have hchecks : restoresWell ⟨⟨0⟩⟩ = true := by decide +kernel
  obtain ⟨d, engine', hreplay, hlive⟩ := live_timeline Wiring.isUsable_standard
    Wiring.isUsable_standard none hearlier hworlds .idle
  rw [restoresWell, hreplay] at hchecks
  simp only [Bool.and_eq_true, Option.isNone_iff_eq_none, decide_eq_true_eq] at hchecks
  obtain ⟨⟨hanswered, hnone⟩, hversions⟩ := hchecks
  refine ⟨_, d, engine', _, rfl, hreplay, rfl, hversions,
    hlive _ hown ⟨⟨0⟩⟩ (.inl List.mem_cons_self) hanswered fun f hf => ?_⟩
  rw [hnone] at hf
  cases hf

end Manager

end WorldClock
