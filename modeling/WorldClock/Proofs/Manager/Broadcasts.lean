import WorldClock.Proofs.Manager.Courses

/-!
# What a process publishes

A process publishes on one occasion only: when a ticker begins a tick and there is somewhere to
publish. What goes out is the entry of its world as the tick has left it in the registry
(`Manager.publishedSince_meet`). Errands publish nothing, and none of them takes a ticker into a
tick (`Manager.Idles`).
-/

namespace WorldClock

def Call.snapshot? : Call → Option Snapshot
  | .published s => some s
  | .weather _ _ _ => none

def snapshots (calls : List Call) : List Snapshot := calls.filterMap Call.snapshot?

/-- Whether a ticker has begun a tick and not ended it. -/
def Phase.isTicking : Phase → Bool
  | .publishing _ _ | .recording _ _ _ | .askingWeather _ _ _ => true
  | _ => false

def Phase.begins (before after : Phase) : Bool := !before.isTicking && after.isTicking

/-- Whether the ticker of a world begins a tick between two views of the world. -/
def View.begins (v v' : View) : Bool :=
  match v.ticker, v'.ticker with
  | some t, some t' => t.phase.begins t'.phase
  | _, _ => false

theorem Phase.begins_self (phase : Phase) : phase.begins phase = false := by
  rw [begins, Bool.not_and_self]

theorem Phase.begins_of_before {before : Phase} (h : before.isTicking = true) (after : Phase) :
    before.begins after = false := by
  rw [begins, h, Bool.not_true, Bool.false_and]

theorem Phase.begins_of_after (before : Phase) {after : Phase} (h : after.isTicking = false) :
    before.begins after = false := by
  rw [begins, h, Bool.and_false]

theorem Phase.isTicking_restAfter (w : Wiring) (cause : TickCause) :
    (Ticker.restAfter w cause).isTicking = false :=
  Ticker.restAfter_cases w cause (fun _ => rfl) (fun _ => rfl) fun _ => rfl

theorem View.begins_of_ticker_eq {v v' : View} (h : v'.ticker = v.ticker) :
    v.begins v' = false := by
  rw [begins, h]
  cases v.ticker with
  | none => rfl
  | some t => exact Phase.begins_self t.phase

/-! ### Tickers -/

namespace Ticker

/-- A step publishes the entry of the ticker's world if it begins a tick and there is somewhere to
publish. -/
def Publishes (w : Wiring) (t : Ticker) (s : Surroundings) (result : Ticker × Surroundings) :
    Prop :=
  snapshots result.2.calls =
    (if t.phase.begins result.1.phase && w.publishes then
      ((result.2.registry.get? t.world).map w.calendar.snapshot).toList else []) ++
    snapshots s.calls

variable {w : Wiring} {m : Moment} {t : Ticker} {s : Surroundings}

theorem publishes_of_not_begins {result : Ticker × Surroundings}
    (hbegins : t.phase.begins result.1.phase = false)
    (hcalls : snapshots result.2.calls = snapshots s.calls) : t.Publishes w s result := by
  rw [Publishes, hbegins, Bool.false_and, if_neg Bool.false_ne_true, List.nil_append, hcalls]

theorem publishes_of_rest {result : Ticker × Surroundings}
    (hafter : result.1.phase.isTicking = false)
    (hcalls : snapshots result.2.calls = snapshots s.calls) : t.Publishes w s result :=
  publishes_of_not_begins (Phase.begins_of_after t.phase hafter) hcalls

theorem publishes_of_ticking {result : Ticker × Surroundings} (hbefore : t.phase.isTicking = true)
    (hcalls : snapshots result.2.calls = snapshots s.calls) : t.Publishes w s result :=
  publishes_of_not_begins (Phase.begins_of_before hbefore result.1.phase) hcalls

theorem publishes_refl : t.Publishes w s (t, s) :=
  publishes_of_not_begins (Phase.begins_self t.phase) rfl

theorem tick_publishes (cause : TickCause) (hphase : t.phase.isTicking = false) :
    t.Publishes w s (t.tick w m cause s) := by
  rw [tick]
  split
  · exact publishes_of_rest (Phase.isTicking_restAfter w cause) rfl
  · next world registry hupdate =>
    obtain ⟨old, -, rfl, -, rfl⟩ := Registry.update_eq_ok hupdate
    by_cases hpublishes : w.publishes = true
    · have hbegins : t.phase.begins (.publishing cause (old.ticked t.delta m.wall)) = true := by
        rw [Phase.begins, hphase]
        rfl
      have hget := Registry.get?_set s.registry t.world t.world (old.ticked t.delta m.wall)
      rw [if_pos rfl] at hget
      simp only [hpublishes, if_true]
      rw [Publishes, hbegins, hpublishes, Bool.and_true, if_pos rfl]
      simp only [Surroundings.call, hget]
      rfl
    · simp only [hpublishes, if_false, Bool.false_eq_true]
      rw [Publishes, Bool.eq_false_iff.mpr hpublishes, Bool.and_false, if_neg Bool.false_ne_true]
      rfl

theorem endCatchUp_publishes (run : CatchUpRun) : t.Publishes w s (t.endCatchUp m run s) := by
  rw [endCatchUp]
  split
  · exact publishes_of_rest rfl rfl
  · refine publishes_of_rest rfl ?_
    split <;> rfl

theorem poll_publishes : t.Publishes w s (t.poll w m s) := by
  rw [poll]
  split
  · exact publishes_of_rest rfl rfl
  · exact publishes_of_rest rfl rfl
  · next run hphase =>
    split
    · exact tick_publishes _ (by rw [hphase]; rfl)
    · exact publishes_of_rest rfl rfl
  · exact publishes_of_rest rfl rfl
  · exact endCatchUp_publishes _
  · next due hphase =>
    split
    · exact publishes_of_rest rfl rfl
    · split
      · exact tick_publishes _ (by rw [hphase]; rfl)
      · exact publishes_refl
  · exact publishes_refl

theorem answer_publishes (r : Reply CallError) : t.Publishes w s (t.answer w m r s) := by
  rw [answer.eq_def]
  split
  · next hphase =>
    refine publishes_of_ticking (by rw [hphase]; rfl) ?_
    cases r <;> rfl
  · next hphase =>
    refine publishes_of_ticking (by rw [hphase]; rfl) ?_
    cases r <;> rfl
  · exact publishes_refl

/-- Weather calls are no publications. -/
theorem snapshots_askWeather (cause : TickCause) (gameTime : Duration) :
    snapshots (t.askWeather w cause gameTime s).2.calls = snapshots s.calls := by
  rw [askWeather]
  split
  · rfl
  · simp only
    split <;> rfl

theorem conclude_publishes (r : Reply LogError) : t.Publishes w s (t.conclude w m r s) := by
  rw [conclude]
  split
  · next cause gameTime filing hphase =>
    split
    · exact publishes_refl
    · next r' houtcome =>
      refine publishes_of_ticking (by rw [hphase]; rfl) ?_
      rw [snapshots_askWeather, settle_calls]
  · next run filing hphase =>
    split
    · exact publishes_refl
    · next r' houtcome =>
      refine publishes_of_rest rfl ?_
      exact congrArg snapshots (settle_calls .resumed filing.event r')
  · exact publishes_refl

theorem file_publishes : t.Publishes w s (t.file s) := by
  rw [file]
  split
  · next hphase =>
    exact publishes_of_ticking (by rw [hphase]; rfl) rfl
  · exact publishes_of_rest rfl rfl
  · exact publishes_refl

theorem crash_publishes (culprit : String) : t.Publishes w s (t.crash culprit, s) := by
  rw [crash]
  split
  · exact publishes_refl
  · exact publishes_of_rest rfl rfl

/-- What a process makes a ticker do. -/
inductive Takes (w : Wiring) (m : Moment) : (Ticker → Surroundings → Ticker × Surroundings) → Prop
  where
  | poll : Takes w m (Ticker.poll w m)
  | answer (r : Reply CallError) : Takes w m (Ticker.answer w m r)
  | file : Takes w m Ticker.file
  | conclude (r : Reply LogError) : Takes w m (Ticker.conclude w m r)
  | crash (culprit : String) : Takes w m fun t s => (t.crash culprit, s)

theorem Takes.publishes {step : Ticker → Surroundings → Ticker × Surroundings}
    (h : Takes w m step) (t : Ticker) (s : Surroundings) : t.Publishes w s (step t s) := by
  cases h with
  | poll => exact poll_publishes
  | answer r => exact answer_publishes r
  | file => exact file_publishes
  | conclude r => exact conclude_publishes r
  | crash culprit => exact crash_publishes culprit

end Ticker

/-! ### Errands -/

namespace Manager

/-- The snapshots of a world that a process has published, the latest one first. -/
def published (p : Manager) (a : WorldId) : List Snapshot :=
  (snapshots p.surroundings.calls).filter fun s => decide (s.world = a)

/-- One process comes from another without a call and without a step of a ticker into a tick. -/
structure Idles (p p' : Manager) : Prop where
  calls : p'.surroundings.calls = p.surroundings.calls
  phase : ∀ a phase, p'.phase? a = some phase → phase.isTicking = true → p.phase? a = some phase

variable {p q : Manager} {m : Moment}

theorem idles_refl (p : Manager) : p.Idles p := ⟨rfl, fun _ _ h _ => h⟩

/-- What becomes of the registry, the log and the errand of a process makes no difference. -/
theorem Idles.of_eq (h : p.Idles q) {q' : Manager}
    (hcalls : q'.surroundings.calls = q.surroundings.calls) (htickers : q'.tickers = q.tickers) :
    p.Idles q' where
  calls := hcalls.trans h.calls
  phase a phase hphase := h.phase a phase (by rwa [phase?, htickers] at hphase)

theorem Idles.tell (h : p.Idles q) (world : WorldId) (n : WorldNotice) :
    p.Idles (q.tell world n) := h.of_eq rfl rfl

theorem Idles.withRegistry (h : p.Idles q) (registry : Registry) :
    p.Idles (q.withRegistry registry) := h.of_eq rfl rfl

theorem Idles.project (h : p.Idles q) (world : WorldId) (e : Event) :
    p.Idles (q.project world e) := h.of_eq (Ticker.project_calls q.surroundings world e) rfl

theorem Idles.launch (h : p.Idles q) (order : SpawnOrder) (version : Count)
    (weatherSyncedAt : Duration) (plan : Option CatchUpPlan) :
    p.Idles (q.launch order version weatherSyncedAt plan) := by
  rw [Manager.launch]
  split
  · exact h.of_eq rfl rfl
  · next t hnew =>
    obtain ⟨delta, -, rfl⟩ := Option.map_eq_some_iff.mp hnew
    refine ⟨h.calls, fun a phase hphase hticking => ?_⟩
    change Option.map Ticker.phase ((q.tickers.set order.world _).get? a) = some phase at hphase
    rw [WorldTable.get?_set] at hphase
    split at hphase
    · cases hphase
      cases hticking
    · exact h.phase a phase hphase hticking

theorem Idles.takeUp (h : p.Idles q) (order : SpawnOrder) (known : World) (version : Count) :
    p.Idles (q.takeUp m order known version) := by
  rw [Manager.takeUp]
  split
  · exact h.of_eq rfl rfl
  · exact ((h.withRegistry _).tell _ _).launch _ _ _ _

theorem Idles.announce (h : p.Idles q) (order : SpawnOrder) (known : World) (version : Count) :
    p.Idles (q.announce m order known version) := by
  rw [Manager.announce]
  split
  · exact h.of_eq rfl rfl
  · exact h.takeUp order known version

theorem Idles.enroll (h : p.Idles q) (order : SpawnOrder) : p.Idles (q.enroll m order) := by
  rw [Manager.enroll]
  split
  · exact h.of_eq rfl rfl
  · exact ((h.withRegistry _).tell _ _).launch _ _ _ _

theorem Idles.resume (h : p.Idles q) (order : SpawnOrder) (known : World) :
    p.Idles (q.resume order known) := by
  rw [Manager.resume]
  split <;> exact h.of_eq rfl rfl

theorem Idles.restoreFrom (h : p.Idles q) (order : SpawnOrder) (history : List Event) :
    p.Idles (q.restoreFrom m order history) := by
  rw [Manager.restoreFrom]
  split
  · exact h.of_eq rfl rfl
  · exact h.of_eq rfl rfl
  · simp only
    split
    · exact h.of_eq rfl rfl
    · exact ((h.tell _ _).withRegistry _).resume _ _

theorem Idles.pause (h : p.Idles q) (world : WorldId) (version pending : Count) :
    p.Idles (q.pause m world version pending) := by
  rw [Manager.pause]
  split <;> exact h.of_eq rfl rfl

theorem idles_beginSpawn (order : SpawnOrder) : p.Idles (p.beginSpawn order) := by
  have h := idles_refl p
  rw [beginSpawn]
  split
  · exact h.of_eq rfl rfl
  · split
    · exact h.of_eq rfl rfl
    · split
      · exact h.resume _ _
      · exact h.of_eq rfl rfl

theorem idles_beginStop (world : WorldId) : p.Idles (p.beginStop world) := by
  rw [beginStop]
  split
  · refine ⟨rfl, fun a phase hphase _ => ?_⟩
    change Option.map Ticker.phase ((p.tickers.modify world Ticker.requestStop).get? a) =
      some phase at hphase
    rw [WorldTable.get?_modify] at hphase
    split at hphase
    · next heq =>
      rw [heq, phase?, ← hphase, Option.map_map]
      rfl
    · exact hphase
  · exact (idles_refl p).of_eq rfl rfl

theorem idles_withoutTicker (p : Manager) (b : WorldId) : p.Idles (p.withoutTicker b) := by
  refine ⟨rfl, fun a phase hphase _ => ?_⟩
  rw [phase?, withoutTicker, WorldTable.get?_erase] at hphase
  split at hphase
  · cases hphase
  · exact hphase

theorem idles_join (world : WorldId) : p.Idles (p.join m world) := by
  have h := idles_withoutTicker p world
  rw [join]
  split
  · exact idles_refl p
  · split
    · exact h.pause _ _ _
    · exact h.of_eq rfl rfl
    · exact idles_refl p

theorem idles_read (failure : Option LogError) : p.Idles (p.read m failure) := by
  have h := idles_refl p
  rw [read]
  split
  · split
    · exact h.of_eq rfl rfl
    · exact h.restoreFrom _ _
  · split
    · exact h.of_eq rfl rfl
    · exact h.announce _ _ _
  · split
    · exact h.of_eq rfl rfl
    · exact h.pause _ _ _
  · exact h

theorem idles_file (p : Manager) : p.Idles p.file := by
  rw [file]
  split <;> exact (idles_refl p).of_eq rfl rfl

theorem idles_conclude (r : Reply LogError) : p.Idles (p.conclude m r) := by
  have h := idles_refl p
  rw [conclude]
  split
  · exact h
  · exact h
  · exact h.of_eq rfl rfl
  · split
    · exact (h.project _ _).enroll _
    · exact (h.project _ _).takeUp _ _ _
    · exact (h.project _ _).of_eq rfl rfl
    · exact h

/-! ### Moves -/

theorem begins_eq (p p' : Manager) (a : WorldId) : (p.viewOf a).begins (p'.viewOf a) =
    match p.phase? a, p'.phase? a with
    | some phase, some phase' => phase.begins phase'
    | _, _ => false := by
  simp only [View.begins, viewOf, phase?]
  cases p.tickers.get? a <;> cases p'.tickers.get? a <;> rfl

theorem Idles.not_begins (h : p.Idles q) (a : WorldId) :
    (p.viewOf a).begins (q.viewOf a) = false := by
  rw [begins_eq]
  cases hafter : q.phase? a with
  | none => cases p.phase? a <;> rfl
  | some phase' =>
    cases hticking : phase'.isTicking with
    | false =>
      cases p.phase? a with
      | none => rfl
      | some phase => exact Phase.begins_of_after phase hticking
    | true =>
      rw [h.phase a phase' hafter hticking]
      exact Phase.begins_self phase'

/-- What a process has published once a move is made: what it had, and the entry of a world that
begins a tick with it. -/
def PublishesTicks (p q : Manager) : Prop :=
  ∀ a, q.published a =
    (if (p.viewOf a).begins (q.viewOf a) && p.wiring.publishes then
      ((q.viewOf a).entry.map p.wiring.calendar.snapshot).toList else []) ++ p.published a

theorem Idles.publishesTicks (h : p.Idles q) : p.PublishesTicks q := by
  intro a
  rw [h.not_begins a, Bool.false_and, if_neg Bool.false_ne_true, List.nil_append, published,
    published, h.calls]

/-- What goes out about the entry of one world is about no other world. -/
theorem filter_snapshot {b : WorldId} (entry : Option World) (hid : ∀ e, entry = some e → e.id = b)
    (calendar : Calendar) (a : WorldId) :
    ((entry.map calendar.snapshot).toList.filter fun s => decide (s.world = a)) =
      if a = b then (entry.map calendar.snapshot).toList else [] := by
  cases entry with
  | none => simp
  | some e =>
    have hworld : (calendar.snapshot e).world = b := hid e rfl
    by_cases hne : a = b
    · simp [hworld, hne]
    · simp [hworld, hne, Ne.symm hne]

theorem stepTicker_publishesTicks (hp : p.Coherent) {b : WorldId}
    {step : Ticker → Surroundings → Ticker × Surroundings}
    (hcoherent : (p.stepTicker b step).Coherent)
    (hstep : ∀ t : Ticker, t.Publishes p.wiring p.surroundings (step t p.surroundings)) :
    p.PublishesTicks (p.stepTicker b step) := by
  rw [stepTicker] at hcoherent ⊢
  cases hticker : p.tickers.get? b with
  | none => exact (idles_refl p).publishesTicks
  | some t =>
    simp only [hticker] at hcoherent ⊢
    intro a
    have hcalls := hstep t
    rw [Ticker.Publishes, (hp b).world_eq hticker] at hcalls
    have hfilter := filter_snapshot ((step t p.surroundings).2.registry.get? b)
      (fun entry hentry => (hcoherent b).id_eq hentry) p.wiring.calendar a
    have hset := WorldTable.get?_set p.tickers b a (step t p.surroundings).1
    simp only [published, hcalls, List.filter_append]
    rw [apply_ite (List.filter _), List.filter_nil, hfilter]
    congr 1
    by_cases hne : a = b
    · subst hne
      have hbegins : (p.viewOf a).begins ⟨(step t p.surroundings).2.registry.get? a,
          (p.tickers.set a (step t p.surroundings).1).get? a, (p.viewOf a).errand,
          (step t p.surroundings).2.log.about a⟩ =
            t.phase.begins (step t p.surroundings).1.phase := by
        rw [if_pos rfl] at hset
        simp only [View.begins, viewOf, hticker, hset]
      rw [if_pos rfl, ← hbegins]
      rfl
    · rw [if_neg hne] at hset
      rw [if_neg hne, ite_self, View.begins_of_ticker_eq hset, Bool.false_and,
        if_neg Bool.false_ne_true]

/-- A move that is not one of a ticker makes no call. -/
theorem apply_idles_or_steps (p : Manager) (m : Moment) (move : Move) :
    p.Idles (p.apply m move) ∨ ∃ world step, Ticker.Takes p.wiring m step ∧
      p.apply m move = p.stepTicker world step := by
  cases move with
  | spawn order =>
    rw [apply]
    split
    · exact .inl (idles_refl p)
    · exact .inl (idles_beginSpawn order)
  | stop world =>
    rw [apply]
    split
    · exact .inl (idles_refl p)
    · exact .inl (idles_beginStop world)
  | join =>
    rw [apply]
    split
    · exact .inl (idles_join _)
    · exact .inl (idles_refl p)
  | read failure => exact .inl (idles_read failure)
  | file => exact .inl (idles_file p)
  | conclude reply => exact .inl (idles_conclude reply)
  | poll world => exact .inr ⟨world, _, .poll, rfl⟩
  | answer world reply => exact .inr ⟨world, _, .answer reply, rfl⟩
  | fileFor world => exact .inr ⟨world, _, .file, rfl⟩
  | concludeFor world reply => exact .inr ⟨world, _, .conclude reply, rfl⟩
  | crash world culprit => exact .inr ⟨world, _, .crash culprit, rfl⟩
  | update world change =>
    rw [apply]
    split
    · exact .inl (idles_refl p)
    · exact .inl ((idles_refl p).withRegistry _)

theorem apply_publishesTicks (hp : p.Coherent) (m : Moment) (move : Move) :
    p.PublishesTicks (p.apply m move) := by
  obtain hidles | ⟨world, step, htakes, heq⟩ := apply_idles_or_steps p m move
  · exact hidles.publishesTicks
  · rw [heq]
    exact stepTicker_publishesTicks hp (heq ▸ hp.apply m move) fun t =>
      htakes.publishes t p.surroundings

/-- The snapshots of a world that were published between two moments of a process, in the order in
which they went out. -/
def publishedSince (p q : Manager) (a : WorldId) : List Snapshot :=
  ((q.published a).take ((q.published a).length - (p.published a).length)).reverse

/-- Whatever happens to a process, it publishes the entry of a world when the world begins a tick,
and nothing else about it. -/
theorem publishedSince_meet (hp : p.Coherent) (i : Incident) (a : WorldId) :
    p.publishedSince (p.meet i) a =
      if (p.viewOf a).begins ((p.meet i).viewOf a) && p.wiring.publishes then
        (((p.meet i).viewOf a).entry.map p.wiring.calendar.snapshot).toList else [] := by
  cases i with
  | move m move =>
    have hpublished := apply_publishesTicks hp m move a
    change p.publishedSince (p.apply m move) a = _
    rw [publishedSince, hpublished, List.length_append, Nat.add_sub_cancel, List.take_left]
    change _ = if (p.viewOf a).begins ((p.apply m move).viewOf a) && p.wiring.publishes then
      (((p.apply m move).viewOf a).entry.map p.wiring.calendar.snapshot).toList else []
    split
    · cases ((p.apply m move).viewOf a).entry <;> rfl
    · rfl
  | death wiring projections =>
    have hdead : (p.viewOf a).begins ((p.meet (.death wiring projections)).viewOf a) = false := by
      rw [begins_eq]
      cases p.phase? a <;> rfl
    have hnone : (p.meet (.death wiring projections)).published a = [] := rfl
    rw [hdead, publishedSince, hnone, List.take_nil, Bool.false_and]
    rfl

end Manager

end WorldClock
