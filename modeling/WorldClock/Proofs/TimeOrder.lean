import WorldClock.Proofs.BoundedReads
import WorldClock.Proofs.Versions

/-!
# Histories in the order of time

The events of one world are written one at a time, and each is dated when its append begins, at the
wall clock of that moment. So under a clock that does not go back the latest event of a history is
dated last, and an append that is under way is dated later than all that is stored
(`View.Dated`). No handing over from one writer to the next changes that, because it goes through
the log: a stop, a spawn or a process that takes over begins its append when nothing else is under
way. The mark of a pause lies further back, but the event that carries it does not.

An early exit from such a history skips nothing (`ScanMode.select_earlyExit`).
-/

namespace WorldClock

namespace View

variable {w : Wiring} {m : Moment} {a : WorldId} {v v' : View}

/-! ### When an append is dated -/

/-- An append is dated at the moment at which it begins. -/
theorem Step.timestamp_eq (hv : v.IsSound w a) (h : v.Step w m a v') {f : Filing}
    (hbefore : v.filing? = none) (hafter : v'.filing? = some f) : f.event.timestamp = m.wall := by
  have hc := hv.coherent
  cases h with
  | askKnown hworld herrand hticker | askUnknown hworld herrand hticker =>
    cases (filing?_onErrand hticker).symm.trans hafter
  | restore herrand =>
    cases (filing?_onErrand (hc.ticker_eq_none herrand)).symm.trans hafter
  | create herrand | announce herrand =>
    obtain rfl := Option.some.inj
      ((filing?_onErrand (hc.ticker_eq_none herrand)).symm.trans hafter)
    rfl
  | takeUp herrand hannounce hentry hnew | takeUpAnnounced herrand hfiled hentry hnew
  | enroll herrand hfiled hnew =>
    rw [filing?_of_ticker rfl, (world_of_new? hnew).2.1] at hafter
    cases hafter
  | giveUp herrand hjoining =>
    have hticker := hc.ticker_eq_none_of_ne herrand hjoining
    cases (filing?_of_idle (v := ⟨v.entry, v.ticker, none, v.events⟩) hticker rfl).symm.trans hafter
  | askStop herrand hticker =>
    cases hafter.symm.trans ((filing?_of_ticker hticker).symm.trans hbefore)
  | breakDown => cases hafter
  | pause | pauseBroken =>
    cases hafter
    rfl
  | goes hticker hentry hgoes =>
    obtain ⟨hnone, -⟩ | ⟨-, -, d, hstart⟩ := hgoes.filing_cases
    · cases hnone.symm.trans hafter
    · cases hstart.symm.trans hafter
      rfl
  | fileCreation herrand | fileAnnouncement herrand =>
    cases (filing?_of_errand (hc.ticker_eq_none herrand) herrand).symm.trans hbefore
  | filePause herrand =>
    have hticker := hc.ticker_eq_none_of_ne herrand (by rintro ⟨⟩)
    cases (filing?_of_errand hticker herrand).symm.trans hbefore
  | fileTick hticker hphase | fileResumption hticker hphase =>
    rw [filing?_of_ticker hticker, Ticker.filing?, hphase] at hbefore
    cases hbefore

/-! ### Histories that follow the clock -/

/-- No event of a history is dated later than one that was written after it, nor later than the
append under way, and nothing is dated ahead of the clock. -/
structure Dated (now : Instant) (v : View) : Prop where
  ordered : v.events.Pairwise fun later earlier => earlier.timestamp ≤ later.timestamp
  past : ∀ e ∈ v.events, e.timestamp ≤ now
  filing : ∀ f, v.filing? = some f →
    f.event.timestamp ≤ now ∧ ∀ e ∈ v.events, e.timestamp ≤ f.event.timestamp

variable {now now' : Instant}

theorem Dated.mono (h : v.Dated now) (hnow : now ≤ now') : v.Dated now' where
  ordered := h.ordered
  past e he := Int.le_trans (h.past e he) hnow
  filing f hfiling := ⟨Int.le_trans (h.filing f hfiling).1 hnow, (h.filing f hfiling).2⟩

/-- An append is over, or there was none. -/
theorem Dated.plain (h : v.Dated now) (hafter : v'.filing? = none)
    (hevents : v'.events = v.events) : v'.Dated now where
  ordered := hevents ▸ h.ordered
  past := hevents ▸ h.past
  filing f hfiling := by cases hafter.symm.trans hfiling

/-- The log sees the append under way. -/
theorem Dated.filed (h : v.Dated now) {f f' : Filing} (hbefore : v.filing? = some f)
    (hafter : v'.filing? = some f') (hfiles : f.Files v.events f' v'.events) : v'.Dated now := by
  obtain ⟨hnow, hahead⟩ := h.filing f hbefore
  have hfiling : ∀ g, v'.filing? = some g → g.event = f.event := fun g hg => by
    cases hafter.symm.trans hg
    exact hfiles.event_eq
  obtain hevents | ⟨hevents, -⟩ := hfiles.events_eq
  · rw [← hevents] at hahead
    exact ⟨hevents ▸ h.ordered, hevents ▸ h.past, fun g hg => hfiling g hg ▸ ⟨hnow, hahead⟩⟩
  · refine ⟨?_, ?_, fun g hg => ?_⟩
    · rw [hevents]
      exact List.pairwise_cons.mpr ⟨hahead, h.ordered⟩
    · rw [hevents]
      exact List.forall_mem_cons.mpr ⟨hnow, h.past⟩
    · rw [hfiling g hg, hevents]
      exact ⟨hnow, List.forall_mem_cons.mpr ⟨Int.le_refl _, hahead⟩⟩

theorem Step.dated (hv : v.IsSound w a) (hsteps : v.Step w m a v') (hnow : now ≤ m.wall)
    (h : v.Dated now) : v'.Dated m.wall := by
  have h := h.mono hnow
  cases hsteps.progress hv with
  | waits hfiling hbroken hlatest hevents =>
    exact ⟨hevents ▸ h.ordered, hevents ▸ h.past, by rw [hfiling, hevents]; exact h.filing⟩
  | begins hbefore hsound hafter hfault hversion hevents =>
    refine ⟨hevents ▸ h.ordered, hevents ▸ h.past, fun f hfiling => ?_⟩
    rw [hsteps.timestamp_eq hv hbefore hfiling, hevents]
    exact ⟨Int.le_refl _, h.past⟩
  | files hbefore hafter hfiles => exact h.filed hbefore hafter hfiles
  | ends hsound hafter hlatest hevents => exact h.plain hafter hevents
  | restarts hticker hafter hevents => exact h.plain hafter hevents

theorem Dated.afterDeath (h : v.Dated now) : v.afterDeath.Dated now := h.plain rfl rfl

theorem Dated.timestamp_le (h : v.Dated now) (hascends : Ascends v.events) {e e' : Event}
    (he : e ∈ v.events) (he' : e' ∈ v.events) (hversion : e.version ≤ e'.version) :
    e.timestamp ≤ e'.timestamp := by
  refine List.Pairwise.forall_of_forall_of_flip
    (R := fun e e' : Event => e.version ≤ e'.version → e.timestamp ≤ e'.timestamp)
    (fun e _ _ => Int.le_refl e.timestamp.nanos) ?_ ?_ he he' hversion
  · exact hascends.1.imp fun hlt hle => absurd hle (UInt64.not_le.mpr hlt)
  · exact h.ordered.imp fun {later earlier} hle (_ : earlier.version ≤ later.version) => hle

end View

namespace Manager

theorem dated_live {w : Wiring} (hw : w.IsUsable) {log : EventLog}
    (projections : Option (Dispatcher ReadModel)) {a : WorldId} (hfresh : log.about a = [])
    {course : List Incident} (hown : ∀ i ∈ course, i.IsOwn) (hclock : InOrder course) :
    (((start w log projections).live course).viewOf a).Dated .latest := by
  have hsound := isSound_start hw projections hfresh
  have hempty : ((start w log projections).viewOf a).Dated .earliest := by
    rw [viewOf_start w projections hfresh]
    exact ⟨.nil, by rintro e ⟨⟩, by rintro f ⟨⟩⟩
  refine (live_keeps_in_order (fun _ now v => v.Dated now)
    (fun _ _ _ _ hnow hdated => hdated.mono hnow) ?_ (fun _ _ _ _ hdated => hdated.afterDeath)
    (coherent_start w log projections) hw hsound.chronicled hsound.attuned hempty hown hclock
    (fun t _ => t.min_le) (by decide) fun t _ => t.le_max).2.2
  intro w m v v' now husable hcoherent hchronicled hattuned hnow hdated hsteps
  exact hsteps.dated ⟨husable, hcoherent, hchronicled, hattuned⟩ hnow hdated

/-- Under a wall clock that does not go back, the events of a world that only a line of processes
writes about are dated in the order of their versions, whatever appends are lost and wherever the
processes die. So the history up to any instant is read in full although reading ends at the first
event after it: it has the events of the world up to that instant, all of them and in the order of
their versions, as after a scan of the whole history. -/
theorem upTo_exact_of_sole_writer {w : Wiring} (hw : w.IsUsable) {log : EventLog}
    (projections : Option (Dispatcher ReadModel)) {a : WorldId} (hfresh : log.about a = [])
    {course : List Incident} (hown : ∀ i ∈ course, i.IsOwn) (hclock : InOrder course) :
    let log' := ((start w log projections).live course).surroundings.log
    (∀ e ∈ log'.events, ∀ e' ∈ log'.events, e.aggregateId = a.text → e'.aggregateId = a.text →
      e.version ≤ e'.version → e.timestamp ≤ e'.timestamp) ∧
    ∀ last : Instant,
      log'.upTo .earlyExit a.text last = log'.upTo .fullScan a.text last ∧
      (log'.upTo .earlyExit a.text last).Pairwise (fun e e' => e.version < e'.version) ∧
      ∀ e, e ∈ log'.upTo .earlyExit a.text last ↔
        e ∈ log'.events ∧ e.aggregateId = a.text ∧ e.timestamp ≤ last := by
  have hsound := isSound_live hw projections hfresh hown
  have hdated := dated_live hw projections hfresh hown hclock
  generalize (start w log projections).live course = p at hsound hdated
  intro log'
  have hascends : Ascends (log'.about a) := hsound.chronicled.ascends
  have hmem : ∀ e, e ∈ log'.about a ↔ e ∈ log'.events ∧ e.aggregateId = a.text := fun e => by
    rw [EventLog.about, List.mem_filter, beq_iff_eq, EventLog.events, List.mem_reverse]
  refine ⟨fun e he e' he' ha ha' hversion => ?_, fun last => ?_⟩
  · exact hdated.timestamp_le hascends ((hmem e).mpr ⟨he, ha⟩) ((hmem e').mpr ⟨he', ha'⟩) hversion
  · have hhistory := EventLog.byAggregate_eq hascends
    have hexact : log'.upTo .earlyExit a.text last = log'.upTo .fullScan a.text last := by
      refine ScanMode.select_earlyExit ?_
      rw [hhistory, List.pairwise_reverse]
      exact hdated.ordered.imp fun hle hin =>
        decide_eq_true (Int.le_trans hle (of_decide_eq_true hin))
    have hfull : log'.upTo .fullScan a.text last =
        (log'.about a).reverse.filter fun e => decide (e.timestamp ≤ last) := by
      rw [← hhistory]
      rfl
    refine ⟨hexact, ?_, fun e => ?_⟩
    · rw [hexact, hfull]
      exact (List.pairwise_reverse.mpr hascends.1).filter _
    · rw [hexact, hfull, List.mem_filter, List.mem_reverse, hmem, decide_eq_true_iff, and_assoc]

/-- The log loses the first tick of a world, and the process dies over the second. The next process
restores the world, loses a tick of the catch-up and is stopped after another one. -/
def takenOver (world : WorldId) : List Incident :=
  let lost : Reply LogError := .failed (.backend "lost")
  let before : List (Moment × Move) :=
    [(momentAt 0, .spawn ⟨world, "world", .one⟩), (momentAt 0, .read none), (momentAt 0, .file),
      (momentAt 0, .conclude .answered), (momentAt 0, .poll world), (momentAt 100, .poll world),
      (momentAt 110, .concludeFor world lost), (momentAt 200, .poll world)]
  let after : List (Moment × Move) :=
    [(momentAt 550, .spawn ⟨world, "world", .one⟩), (momentAt 550, .read none),
      (momentAt 550, .read none), (momentAt 560, .file), (momentAt 560, .conclude .answered),
      (momentAt 560, .poll world), (momentAt 560, .poll world),
      (momentAt 570, .concludeFor world lost), (momentAt 570, .poll world),
      (momentAt 570, .fileFor world), (momentAt 580, .concludeFor world .answered),
      (momentAt 590, .stop world), (momentAt 590, .poll world), (momentAt 590, .poll world),
      (momentAt 590, .join), (momentAt 600, .file), (momentAt 600, .conclude .answered)]
  before.map (fun (m, move) => .move m move) ++ .death .standard none ::
    after.map fun (m, move) => .move m move

theorem upTo_exact_of_takenOver :
    let log := ((start .standard .empty none).live (takenOver ⟨⟨0⟩⟩)).surroundings.log
    log.events.map (fun e => e.version.toNat) = [1, 2, 4, 5] ∧
      ∀ last, log.upTo .earlyExit (WorldId.text ⟨⟨0⟩⟩) last =
        log.upTo .fullScan (WorldId.text ⟨⟨0⟩⟩) last := by
  have hown : ∀ i ∈ takenOver ⟨⟨0⟩⟩, i.IsOwn := by
    simp [takenOver, Incident.IsOwn, Move.isOwn, Wiring.isUsable_standard]
  have hfresh : EventLog.empty.about ⟨⟨0⟩⟩ = [] := rfl
  have hexact := upTo_exact_of_sole_writer Wiring.isUsable_standard none hfresh hown
    (by decide +kernel)
  exact ⟨by decide +kernel, fun last => (hexact.2 last).1⟩

end Manager

end WorldClock
