import Mathlib.Control.Monad.Basic
import WorldClock.Proofs.Manager.Trail

/-!
# What is stopped is what is restored

A stop is done well only once its pause is stored, and a stored pause has brought the timeline of
the world level with its entry. So restoring the world from the log gives the entry back
(`Manager.restore_of_stop`), unless game time has outgrown the 64 bits in which events count it.
-/

namespace WorldClock

namespace Manager

theorem errand_pause_ne (p : Manager) (m : Moment) (a : WorldId) (version pending : Count) :
    (p.pause m a version pending).errand ≠ some (.over (.ok ())) := by
  rw [pause]
  split <;> rintro ⟨⟩

/-- A stop is done well only once its pause is stored. -/
theorem recording_of_stop_ok {p : Manager} {m : Moment} {move : Move} {a : WorldId}
    {stage : StopStage} (hstop : p.errand = some (.stop a stage))
    (hok : (p.apply m move).errand = some (.over (.ok ()))) :
    ∃ filing world pending, stage = .recording filing world pending ∧
      filing.verdict = some (.ok ()) ∧
      (p.apply m move).viewOf a = { p.viewOf a with errand := none } := by
  have hbusy : p.isBusy = true := by rw [isBusy, hstop]
  -- Every move but the reply to the pause leaves the stop under way or ends it with an error.
  cases move with
  | spawn order =>
    rw [apply, if_pos hbusy, hstop] at hok
    cases hok
  | stop world =>
    rw [apply, if_pos hbusy, hstop] at hok
    cases hok
  | join =>
    cases stage with
    | joining =>
      simp only [apply, hstop, join] at hok
      split at hok
      · simp [hstop] at hok
      · split at hok
        · exact absurd hok (errand_pause_ne _ _ _ _ _)
        · cases hok
        · simp [hstop] at hok
    | readingVersion | recording filing world pending => simp [apply, hstop] at hok
  | read failure =>
    cases stage with
    | readingVersion =>
      simp only [apply, read, hstop] at hok
      split at hok
      · cases hok
      · exact absurd hok (errand_pause_ne _ _ _ _ _)
    | joining | recording filing world pending => simp [apply, read, hstop] at hok
  | file =>
    cases stage with
    | recording filing world pending =>
      simp only [apply, file, hstop] at hok
      cases hok
    | joining | readingVersion => simp [apply, file, hstop] at hok
  | conclude reply =>
    cases stage with
    | joining | readingVersion => simp [apply, conclude, filing?, hstop] at hok
    | recording filing world pending =>
      simp only [apply, conclude, filing?, hstop, Option.bind_some] at hok ⊢
      split at hok
      · simp [hstop] at hok
      · simp [hstop] at hok
      · cases hok
      · next houtcome =>
        exact ⟨filing, world, pending, rfl, verdict_of_answered houtcome, by simp⟩
  | poll | answer | fileFor | concludeFor | crash =>
    simp only [apply, errand_stepTicker, hstop] at hok
    cases hok
  | update world change =>
    simp only [apply] at hok
    split at hok
    · simp [hstop] at hok
    · simp [withRegistry, hstop] at hok

def stopping? (p : Manager) : Option WorldId :=
  match p.errand with
  | some (.stop world _) => some world
  | _ => none

theorem errand_of_stopping? {p : Manager} {a : WorldId} (h : p.stopping? = some a) :
    ∃ stage, p.errand = some (.stop a stage) := by
  rw [stopping?] at h
  split at h
  · next world stage herrand => exact ⟨stage, Option.some.inj h ▸ herrand⟩
  · cases h

theorem errand_of_result? {p : Manager} {result : Except ManagerError Unit}
    (h : p.result? = some result) : p.errand = some (.over result) := by
  rw [result?] at h
  split at h
  · next result' herrand => exact Option.some.inj h ▸ herrand
  · cases h

/-- Whatever a line of processes has done over an empty log, whichever worlds it ran, whichever
appends were lost and wherever a process died: when a stop is done well, restoring its world from
the log gives the entry of the registry back. -/
theorem restore_of_stop {w : Wiring} (hw : w.IsUsable)
    (projections : Option (Dispatcher ReadModel)) {course : List Incident}
    (hown : ∀ i ∈ course, i.IsOwn) {a : WorldId} {m : Moment} {move : Move}
    (hstop : ((start w .empty projections).live course).stopping? = some a)
    (hok : (((start w .empty projections).live course).apply m move).result? = some (.ok ())) :
    let p := ((start w .empty projections).live course).apply m move
    ∃ entry, p.surroundings.registry.get? a = some entry ∧
      (entry.gameTime.nanos ≤ Count.greatest →
        ∃ restored count,
          restore (p.surroundings.log.byAggregate a.text 1) a = .ok (some (restored, count)) ∧
          restored.id = entry.id ∧ restored.status = .paused ∧ entry.status = .paused ∧
          restored.tickCount = entry.tickCount ∧ restored.gameTime = entry.gameTime ∧
          restored.pausedAt = entry.pausedAt ∧
          restored.weatherSyncedAt = entry.weatherSyncedAt) := by
  obtain ⟨hchron, hatt, hfollowed⟩ := live_keeps_of_empty (View.Followed a)
    (fun w m v v' _ hc hchron hatt hv hsteps => hsteps.followed hc hchron hatt hv)
    (fun v => View.followed_afterDeath)
    ⟨by rintro t entry ht ⟨⟩, by rintro t ht; exact absurd rfl ht.ne_nil, by rintro entry ⟨⟩,
      by rintro filing world pending ⟨⟩⟩ hw projections hown
  have hcoherent := (coherent_start w .empty projections).live course
  obtain ⟨stage, hstop⟩ := errand_of_stopping? hstop
  obtain ⟨filing, world, pending, rfl, hverdict, hview⟩ :=
    recording_of_stop_ok hstop (errand_of_result? hok)
  generalize (start w .empty projections).live course = q at *
  intro p
  have herrand : (q.viewOf a).errand = some (.stop a (.recording filing world pending)) :=
    errand_eq_some q hstop rfl
  obtain ⟨hentry, hstatus, -, -, pausedAt, hpausedAt, -⟩ :=
    hatt.recording filing world pending herrand
  obtain ⟨t, hstory, hlevel⟩ := hfollowed.stopped filing world pending herrand hverdict
  have hevents : p.surroundings.log.about a = (q.viewOf a).events := congrArg View.events hview
  refine ⟨world, (congrArg View.entry hview).trans hentry, fun hfits => ?_⟩
  have hweather : world.weatherSyncedAt.nanos ≤ Count.greatest :=
    Nat.le_trans (hfollowed.entry world hentry) hfits
  refine ⟨t.toWorld, (q.viewOf a).events.length, ?_, ?_, rfl, hstatus, hlevel.tickCount,
    hlevel.gameTime hfits, ?_, hlevel.weather hweather⟩
  · rw [EventLog.byAggregate_eq (hevents ▸ hchron.ascends), hevents, restore_eq hstory]
  · exact hstory.world_eq.trans ((hcoherent a).id_eq hentry).symm
  · change some (t.pausedAt.getD t.lastEventAt) = _
    rw [hlevel.pausedAt, hpausedAt, Option.getD_some]

/-- A process that has stopped a world while it caught up. -/
def stoppedInCatchUp : Manager :=
  ((start .standard .empty none).live (interruptedOnce ⟨⟨0⟩⟩)).apply (momentAt 370)
    (.conclude .answered)

/-- Two ticks were made before the stop, and the pause is dated a tick's time back. -/
theorem restore_of_stop_of_interruptedOnce :
    ∃ entry restored count,
      stoppedInCatchUp.surroundings.registry.get? ⟨⟨0⟩⟩ = some entry ∧ entry.status = .paused ∧
      restore (stoppedInCatchUp.surroundings.log.byAggregate (WorldId.text ⟨⟨0⟩⟩) 1) ⟨⟨0⟩⟩ =
        .ok (some (restored, count)) ∧
      restored.id = entry.id ∧ restored.status = .paused ∧ restored.tickCount = 2 ∧
      restored.gameTime = .ofMillis 200 ∧ restored.pausedAt = some (.clamp 270000000) ∧
      restored.weatherSyncedAt = .zero := by
  have hstop : ((start .standard .empty none).live (interruptedOnce ⟨⟨0⟩⟩)).stopping? =
      some ⟨⟨0⟩⟩ := by decide +kernel
  have hok : stoppedInCatchUp.result? = some (.ok ()) := by decide +kernel
  have hfields : (stoppedInCatchUp.surroundings.registry.get? ⟨⟨0⟩⟩).map (fun entry =>
      (entry.tickCount, entry.gameTime, entry.pausedAt, entry.weatherSyncedAt)) =
        some (2, .ofMillis 200, some (.clamp 270000000), .zero) := by decide +kernel
  obtain ⟨entry, hentry, hrestore⟩ :=
    restore_of_stop Wiring.isUsable_standard none (isOwn_interruptedOnce _) hstop hok
  rw [stoppedInCatchUp] at hfields ⊢
  rw [hentry, Option.map_some, Option.some.injEq] at hfields
  have htime : entry.gameTime = .ofMillis 200 := congrArg (·.2.1) hfields
  obtain ⟨restored, count, hrestored, hid, hstatus, hstopped, htick, hgame, hmark, hsynced⟩ :=
    hrestore (by rw [htime]; decide)
  exact ⟨entry, restored, count, hentry, hstopped, hrestored, hid, hstatus,
    htick.trans (congrArg (·.1) hfields), hgame.trans htime,
    hmark.trans (congrArg (·.2.2.1) hfields), hsynced.trans (congrArg (·.2.2.2) hfields)⟩

end Manager

end WorldClock
