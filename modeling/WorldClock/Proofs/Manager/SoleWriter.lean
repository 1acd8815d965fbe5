import WorldClock.Proofs.Manager.Chronicle

/-!
# The registry as its tickers know it

As long as nobody else writes to the registry, the entry of a world is what its ticker or its errand
last made of it: the status says what the ticker does, the world that a ticker publishes or a stop
records is the entry itself, and the event that waits for the log has the entry's totals
(`View.Attuned`). An entry without a ticker is paused unless the ticker has broken down.
-/

namespace WorldClock

def TickCause.status : TickCause → Status
  | .owed _ => .catchingUp
  | .due _ => .running

/-- The status of a world by what its ticker does; none if the ticker broke down. -/
def Phase.status? : Phase → Option Status
  | .starting none | .waiting _ | .resuming _ _ => some .running
  | .starting (some _) | .replaying _ | .yielding _ | .replayed _ => some .catchingUp
  | .publishing cause _ | .recording cause _ _ | .askingWeather cause _ _ => some cause.status
  | .finished pending => some (if pending = 0 then .running else .catchingUp)
  | .crashed _ => none

def Phase.published? : Phase → Option World
  | .publishing _ world => some world
  | _ => none

theorem Phase.status?_restAfter (w : Wiring) (cause : TickCause) :
    (Ticker.restAfter w cause).status? = some cause.status :=
  Ticker.restAfter_cases w cause (fun _ => rfl) (fun _ => rfl) fun _ => rfl

theorem Phase.published?_restAfter (w : Wiring) (cause : TickCause) :
    (Ticker.restAfter w cause).published? = none :=
  Ticker.restAfter_cases w cause (fun _ => rfl) (fun _ => rfl) fun _ => rfl

namespace Ticker

def tickDetails (t : Ticker) (cause : TickCause) (entry : World) : Details :=
  .ticked {
    tickCount := entry.tickCount
    gameTimeNanos := entry.gameTime.toNanoCount
    tickNanos := t.delta.toNanoCount
    catchUp := cause.isCatchUp }

/-- The entry of a world is as its ticker has left it. -/
structure Attuned (t : Ticker) (entry : World) : Prop where
  weather : entry.weatherSyncedAt = t.weatherSyncedAt
  active : entry.status = .running ∨ entry.status = .catchingUp
  status : ∀ s, t.phase.status? = some s → entry.status = s
  publishing : ∀ cause world, t.phase = .publishing cause world → world = entry
  recording : ∀ cause gameTime filing, t.phase = .recording cause gameTime filing →
    gameTime = entry.gameTime ∧
      ∃ now, filing.event = Event.ofWorld t.world t.version now (t.tickDetails cause entry)
  resuming : ∀ run filing, t.phase = .resuming run filing →
    ∃ now, filing.event = Event.ofWorld t.world t.version now
      (.resumed ⟨run.plan.units, run.plan.missed.toMillis⟩)

variable {w : Wiring} {m : Moment} {t t' : Ticker} {entry entry' : World}

/-- A ticker in a phase that carries neither a world nor an append. -/
theorem attuned_of_plain (hweather : entry.weatherSyncedAt = t.weatherSyncedAt)
    (hactive : entry.status = .running ∨ entry.status = .catchingUp)
    (hstatus : ∀ s, t.phase.status? = some s → entry.status = s)
    (hpublished : t.phase.published? = none) (hfiling : t.filing? = none) : t.Attuned entry where
  weather := hweather
  active := hactive
  status := hstatus
  publishing cause world hphase := by simp [Phase.published?, hphase] at hpublished
  recording cause gameTime filing hphase := by simp [filing?, hphase] at hfiling
  resuming run filing hphase := by simp [filing?, hphase] at hfiling

/-- A ticker that goes on to such a phase without a change of status. -/
theorem Attuned.goOn (h : t.Attuned entry) (status : Status)
    (hbefore : t.phase.status? = some status) (hafter : t'.phase.status? = some status)
    (hweather : t'.weatherSyncedAt = t.weatherSyncedAt) (hpublished : t'.phase.published? = none)
    (hfiling : t'.filing? = none) : t'.Attuned entry := by
  refine attuned_of_plain (h.weather.trans hweather.symm) h.active ?_ hpublished hfiling
  intro s hs
  rw [hafter] at hs
  rw [← Option.some.inj hs]
  exact h.status status hbefore

theorem status_of_begins {cause : TickCause} (h : t.Begins w m cause) :
    t.phase.status? = some cause.status := by
  cases h with
  | owed hphase => rw [hphase]; rfl
  | due hphase => rw [hphase]; rfl

theorem attuned_endTick {cause : TickCause} (h : t.Attuned entry)
    (hstatus : t.phase.status? = some cause.status) : (t.endTick w cause).Attuned entry :=
  h.goOn cause.status hstatus (Phase.status?_restAfter w cause) rfl
    (Phase.published?_restAfter w cause) (filing?_endTick w cause t)

theorem attuned_record {cause : TickCause} (hweather : entry.weatherSyncedAt = t.weatherSyncedAt)
    (hactive : entry.status = .running ∨ entry.status = .catchingUp)
    (hstatus : entry.status = cause.status) : (t.record m cause entry).Attuned entry where
  weather := hweather
  active := hactive
  status s hs := by
    rw [hstatus]
    exact Option.some.inj hs
  publishing cause' world hphase := by cases hphase
  recording cause' gameTime filing hphase := by
    cases hphase
    exact ⟨rfl, m.wall, rfl⟩
  resuming run filing hphase := by cases hphase

theorem Goes.attuned (h : Goes w m t entry t' entry') (ht : t.Attuned entry) :
    t'.Attuned entry' := by
  cases h with
  | begin hphase | resumed hphase | halt hphase =>
    exact ht.goOn .running (by rw [hphase]; rfl) rfl rfl rfl rfl
  | beginReplay hphase | goOn hphase | endReplay hphase =>
    exact ht.goOn .catchingUp (by rw [hphase]; rfl) rfl rfl rfl rfl
  | @tick cause hbegins =>
    have hstatus := ht.status cause.status (status_of_begins hbegins)
    refine ⟨ht.weather, ht.active, ?_, ?_, by rintro cause' gameTime filing ⟨⟩,
      by rintro run filing ⟨⟩⟩
    · intro s hs
      cases hs
      exact hstatus
    · intro cause' world hphase
      cases hphase
      rfl
  | @tickUnpublished cause hbegins =>
    exact attuned_record ht.weather ht.active (ht.status cause.status (status_of_begins hbegins))
  | @published cause world hphase =>
    have hworld := ht.publishing cause world hphase
    subst hworld
    exact attuned_record ht.weather ht.active (ht.status cause.status (by rw [hphase]; rfl))
  | recorded hphase | weathered hphase => exact attuned_endTick ht (by rw [hphase]; rfl)
  | @asked cause gameTime filing r r' hphase houtcome hweather hasks =>
    have hstatus := ht.status cause.status (by rw [hphase]; rfl)
    refine attuned_of_plain rfl ht.active ?_ rfl rfl
    intro s hs
    cases hs
    exact hstatus
  | @interrupt run hphase hpending =>
    have hafter : (Phase.finished run.pending).status? = some .catchingUp := by
      rw [Phase.status?, if_neg hpending]
    exact ht.goOn .catchingUp (by rw [hphase]; rfl) hafter rfl rfl rfl
  | @complete run hphase hpending =>
    have hstatus := ht.status .catchingUp (by rw [hphase]; rfl)
    have hrunning : markRunning entry = { entry with status := .running } := if_pos hstatus
    rw [hrunning]
    refine ⟨ht.weather, .inl rfl, ?_, by rintro cause world ⟨⟩,
      by rintro cause gameTime filing ⟨⟩, ?_⟩
    · intro s hs
      cases hs
      rfl
    · intro run' filing hresuming
      cases hresuming
      exact ⟨m.wall, rfl⟩
  | crash culprit hover =>
    refine attuned_of_plain ht.weather ht.active ?_ rfl rfl
    intro s hs
    cases hs

end Ticker

/-- Whether an errand carries the entry of a world, or an event that was made from it. -/
def Errand.carries : Errand → Bool
  | .spawn _ (.readingVersion _) | .spawn _ (.announcing _ _) | .stop _ (.recording ..) => true
  | _ => false

namespace View

/-- The entry of a world is as its ticker or its errand has left it. -/
structure Attuned (a : WorldId) (v : View) : Prop where
  active : ∀ entry, v.entry = some entry → entry.status ≠ .stopped
  ticker : ∀ t entry, v.ticker = some t → v.entry = some entry → t.Attuned entry
  known : ∀ order known, v.errand = some (.spawn order (.readingVersion known)) →
    v.entry = some known
  announcing : ∀ order known filing, v.errand = some (.spawn order (.announcing known filing)) →
    v.entry = some known ∧
      ∃ version now, filing.event = order.creation a version now true
  recording : ∀ filing world pending, v.errand = some (.stop a (.recording filing world pending)) →
    v.entry = some world ∧ world.status = .paused ∧ ∃ version now pausedAt,
      world.pausedAt = some pausedAt ∧ filing.event = world.pauseEvent a version now pausedAt

variable {w : Wiring} {m : Moment} {a : WorldId} {v v' : View}

/-- While the errand of a process carries neither the entry of a world nor an event of it. -/
theorem attuned_of_plain (hactive : ∀ entry, v.entry = some entry → entry.status ≠ .stopped)
    (hticker : ∀ t entry, v.ticker = some t → v.entry = some entry → t.Attuned entry)
    (hplain : ∀ e, v.errand = some e → e.carries = false) : v.Attuned a where
  active := hactive
  ticker := hticker
  known _ _ herrand := nomatch hplain _ herrand
  announcing _ _ _ herrand := nomatch hplain _ herrand
  recording _ _ _ herrand := nomatch hplain _ herrand

theorem attuned_paused {entry : World} (version pending : Count) :
    (v.paused w m a entry version pending).Attuned a := by
  refine ⟨?_, by rintro t entry ⟨⟩, by rintro order known ⟨⟩, by rintro order known filing ⟨⟩, ?_⟩
  · intro e he hstopped
    cases he
    cases hstopped
  · intro filing world pending' he
    cases he
    exact ⟨rfl, rfl, _, _, _, rfl, rfl⟩

theorem attuned_takenUp {order : SpawnOrder} {known entry : World} {version : Count} {t : Ticker}
    (hnew : Ticker.new? w.clock a order.dilation version entry.weatherSyncedAt
      (known.planAt w.clock.tickInterval m.wall) = some t) :
    (v.takenUp w m order known entry t).Attuned a := by
  obtain ⟨delta, -, rfl⟩ := Option.map_eq_some_iff.mp hnew
  refine attuned_of_plain ?_ ?_ (by rintro e ⟨⟩)
  · intro e he
    cases he
    simp only [Manager.resumed]
    split <;> rintro ⟨⟩
  · intro t' e ht he
    cases ht
    cases he
    cases hplan : known.planAt w.clock.tickInterval m.wall with
    | none => exact Ticker.attuned_of_plain rfl (.inl rfl) (by rintro s ⟨⟩; rfl) rfl rfl
    | some plan => exact Ticker.attuned_of_plain rfl (.inr rfl) (by rintro s ⟨⟩; rfl) rfl rfl

/-- A world whose ticker goes on has no mark of a pause. -/
theorem Attuned.unmarked_of_goes {t t' : Ticker} {entry entry' : World} (hv : v.Attuned a)
    (hc : v.Coherent w a) (hticker : v.ticker = some t) (hentry : v.entry = some entry)
    (hgoes : t.Goes w m entry t' entry') : entry'.pausedAt = none := by
  have hattuned := hgoes.attuned (hv.ticker t entry hticker hentry)
  obtain ⟨-, hmarker⟩ := hgoes.entry_fits (hc.id_eq hentry) (hc.markerFits hentry)
  obtain hstatus | hstatus := hattuned.active <;>
    simpa [World.markerFits, hstatus] using hmarker

/-- A step leaves the entry of a world as its ticker or its errand knows it. -/
theorem Step.attuned (hc : v.Coherent w a) (hv : v.Attuned a) (h : v.Step w m a v') :
    v'.Attuned a := by
  cases h with
  | giveUp => exact attuned_of_plain hv.active hv.ticker (by rintro e ⟨⟩)
  | askUnknown | create | fileCreation =>
    refine attuned_of_plain hv.active hv.ticker ?_
    intro e he
    cases he
    rfl
  | @askKnown order known hworld herrand hticker hentry haccepted hstatus =>
    refine ⟨hv.active, hv.ticker, ?_, by rintro order known filing ⟨⟩,
      by rintro filing world pending ⟨⟩⟩
    intro order' known' he
    cases he
    exact hentry
  | restore herrand hworld hhistory =>
    refine ⟨?_, ?_, ?_, by rintro order known filing ⟨⟩, by rintro filing world pending ⟨⟩⟩
    · intro entry he hstopped
      cases he
      cases hstopped
    · intro t entry hticker
      simp [hc.ticker_eq_none herrand] at hticker
    · intro order known he
      cases he
      rfl
  | @announce order known herrand hannounce =>
    refine ⟨hv.active, hv.ticker, by rintro order known ⟨⟩, ?_, by rintro filing world pending ⟨⟩⟩
    intro order' known' filing he
    obtain ⟨rfl, hstage⟩ := Errand.spawn.inj (Option.some.inj he)
    obtain ⟨rfl, rfl⟩ := SpawnStage.announcing.inj hstage
    exact ⟨hv.known order known herrand, _, _, rfl⟩
  | takeUp herrand hannounce hentry hnew => exact attuned_takenUp hnew
  | takeUpAnnounced herrand hfiled hentry hnew => exact attuned_takenUp hnew
  | @enroll order filing t herrand hfiled hnew =>
    obtain ⟨delta, -, rfl⟩ := Option.map_eq_some_iff.mp hnew
    refine attuned_of_plain ?_ ?_ (by rintro e ⟨⟩)
    · intro entry he hstopped
      cases he
      cases hstopped
    · intro t' entry ht he
      cases ht
      cases he
      exact Ticker.attuned_of_plain rfl (.inl rfl) (by rintro s ⟨⟩; rfl) rfl rfl
  | @fileAnnouncement order known filing filing' events' herrand hfiles =>
    obtain ⟨hentry, version, now, hevent⟩ := hv.announcing order known filing herrand
    refine ⟨hv.active, hv.ticker, by rintro order known ⟨⟩, ?_, by rintro filing world pending ⟨⟩⟩
    intro order' known' f he
    cases he
    exact ⟨hentry, version, now, by rw [hfiles.event_eq, hevent]⟩
  | @filePause world pending filing filing' events' herrand hfiles =>
    obtain ⟨hentry, hstatus, version, now, pausedAt, hpausedAt, hevent⟩ :=
      hv.recording filing world pending herrand
    refine ⟨hv.active, hv.ticker, by rintro order known ⟨⟩, by rintro order known filing ⟨⟩, ?_⟩
    intro f world' pending' he
    cases he
    exact ⟨hentry, hstatus, version, now, pausedAt, hpausedAt, by rw [hfiles.event_eq, hevent]⟩
  | @askStop t herrand hticker hstop =>
    refine attuned_of_plain hv.active ?_ (by rintro e ⟨⟩; rfl)
    intro t' entry ht' hentry
    cases ht'
    have ht := hv.ticker t entry hticker hentry
    exact ⟨ht.weather, ht.active, ht.status, ht.publishing, ht.recording, ht.resuming⟩
  | pause herrand hticker hphase hentry => exact attuned_paused _ _
  | breakDown => exact attuned_of_plain hv.active (by rintro t entry ⟨⟩) (by rintro e ⟨⟩; rfl)
  | pauseBroken herrand hentry => exact attuned_paused _ _
  | @goes t t' entry entry' hticker hentry hgoes =>
    have hattuned := hgoes.attuned (hv.ticker t entry hticker hentry)
    refine attuned_of_plain ?_ ?_ ?_
    · intro e he hstopped
      cases he
      obtain hrunning | hcatching := hattuned.active <;> simp_all
    · intro t'' e ht he
      cases ht
      cases he
      exact hattuned
    · intro e he
      rw [hc.errand_eq_joining hticker he]
      rfl
  | @fileTick t cause gameTime filing filing' events' hticker hphase hfiles =>
    refine ⟨hv.active, ?_, hv.known, hv.announcing, hv.recording⟩
    intro t' entry ht' hentry
    cases ht'
    have ht := hv.ticker t entry hticker hentry
    refine ⟨ht.weather, ht.active, fun s hs => ht.status s (by rw [hphase]; exact hs),
      by rintro cause' world ⟨⟩, ?_, by rintro run f ⟨⟩⟩
    intro cause' gameTime' f hrecording
    cases hrecording
    obtain ⟨htime, now, hevent⟩ := ht.recording cause gameTime filing hphase
    exact ⟨htime, now, by rw [hfiles.event_eq, hevent]; rfl⟩
  | @fileResumption t run filing filing' events' hticker hphase hfiles =>
    refine ⟨hv.active, ?_, hv.known, hv.announcing, hv.recording⟩
    intro t' entry ht' hentry
    cases ht'
    have ht := hv.ticker t entry hticker hentry
    refine ⟨ht.weather, ht.active, fun s hs => ht.status s (by rw [hphase]; exact hs),
      by rintro cause' world ⟨⟩, by rintro cause gameTime f ⟨⟩, ?_⟩
    intro run' f hresuming
    cases hresuming
    obtain ⟨now, hevent⟩ := ht.resuming run filing hphase
    exact ⟨now, by rw [hfiles.event_eq, hevent]⟩

theorem attuned_afterDeath (v : View) : v.afterDeath.Attuned a :=
  attuned_of_plain (by rintro entry ⟨⟩) (by rintro t entry ⟨⟩) (by rintro e ⟨⟩)

theorem chronicled_nil (a : WorldId) : (View.mk none none none []).Chronicled a :=
  ⟨ascends_nil, fun hne => absurd rfl hne, fun hne => absurd rfl hne, by rintro t ⟨⟩,
    by rintro e f ⟨⟩, by rintro order f ⟨⟩⟩

/-! ### What is told to the log -/

theorem Chronicled.story_of_entry (hchron : v.Chronicled a) {entry : World}
    (hentry : v.entry = some entry) : ∃ t, Story a v.events t :=
  hchron.story (hchron.entry (Option.ne_none_iff_exists'.mpr ⟨entry, hentry⟩))

/-- A restored world is what its story comes to. -/
theorem Chronicled.story_of_restore (hchron : v.Chronicled a) {world : World} {count : Nat}
    (hhistory : restore (historyOf v.events) a = .ok (some (world, count))) :
    ∃ t, Story a v.events t ∧ t.toWorld = world := by
  have hne : v.events ≠ [] := by
    intro hempty
    rw [hchron.restore_eq_none_iff.mpr hempty] at hhistory
    cases hhistory
  obtain ⟨t, hstory⟩ := hchron.story hne
  rw [historyOf_eq hchron.ascends, restore_eq hstory] at hhistory
  exact ⟨t, hstory, (Prod.mk.inj (Option.some.inj (Except.ok.inj hhistory))).1⟩

/-- The first event of a world starts its story anew. -/
theorem Chronicled.story_of_creation (hchron : v.Chronicled a) {order : SpawnOrder}
    {filing filing' : Filing} {events' : List Event}
    (herrand : v.errand = some (.spawn order (.creating filing)))
    (hfiles : filing.Files v.events filing' events') {t : Timeline} (ht : Story a events' t) :
    Story a v.events t ∨ ∃ d, t = Timeline.starting a filing.event d := by
  obtain ⟨now, -, hnone, -⟩ := hchron.creation order filing herrand
  obtain rfl | ⟨rfl, hverdict, -⟩ := hfiles.events_eq
  · exact .inl ht
  · rw [hnone hverdict] at ht
    exact .inr ht.of_single

/-- Once the log has taken it, it is all that there is of the story. -/
theorem Chronicled.story_of_created (hchron : v.Chronicled a) {order : SpawnOrder}
    {filing : Filing} (herrand : v.errand = some (.spawn order (.creating filing)))
    (hfiled : filing.verdict = some (.ok ())) {t : Timeline} (ht : Story a v.events t) :
    ∃ d, t = Timeline.starting a filing.event d := by
  obtain ⟨now, -, -, hstored⟩ := hchron.creation order filing herrand
  rw [hstored hfiled] at ht
  exact ht.of_single

theorem Attuned.announcing_tells (hatt : v.Attuned a) (hchron : v.Chronicled a)
    {order : SpawnOrder} {known : World} {filing : Filing}
    (herrand : v.errand = some (.spawn order (.announcing known filing))) :
    v.entry = some known ∧ (∃ t, Story a v.events t) ∧
      ∃ d : CreatedDetails, filing.event.Tells a (.created d) := by
  obtain ⟨-, hrecord⟩ := hchron.errand _ _ herrand rfl
  obtain ⟨hentry, version, created, hevent⟩ := hatt.announcing order known filing herrand
  obtain ⟨d, htells⟩ := hrecord.tells
  have hkind : d.kind = .created := by
    have hkind := htells.kind
    rw [hevent, SpawnOrder.creation, Event.kind?_ofWorld] at hkind
    exact (Option.some.inj hkind).symm
  refine ⟨hentry, hchron.story_of_entry hentry, ?_⟩
  cases d with
  | created d => exact ⟨d, htells⟩
  | ticked d | paused d | resumed d => cases hkind

theorem Attuned.pause_tells (hatt : v.Attuned a) (hchron : v.Chronicled a) {world : World}
    {filing : Filing} {pending : Count}
    (herrand : v.errand = some (.stop a (.recording filing world pending))) :
    v.entry = some world ∧ (∃ t, Story a v.events t) ∧
      ∃ pausedAt, world.pausedAt = some pausedAt ∧ filing.event.Tells a (.paused
        ⟨world.tickCount, world.gameTime.toNanoCount, some pausedAt,
          world.weatherSyncedAt.toNanoCount⟩) := by
  obtain ⟨hentry, -, version, created, pausedAt, hpausedAt, hevent⟩ :=
    hatt.recording filing world pending herrand
  refine ⟨hentry, hchron.story_of_entry hentry, pausedAt, hpausedAt, ?_⟩
  rw [hevent]
  exact Event.tells_ofWorld_self a version created (by rintro ⟨⟩)

theorem Attuned.tick_tells (hatt : v.Attuned a) (hchron : v.Chronicled a) (hc : v.Coherent w a)
    {t : Ticker} {cause : TickCause} {gameTime : Duration} {filing : Filing}
    (hticker : v.ticker = some t) (hphase : t.phase = .recording cause gameTime filing) :
    ∃ entry, v.entry = some entry ∧ (∃ t, Story a v.events t) ∧
      filing.event.Tells a (t.tickDetails cause entry) := by
  obtain ⟨hworld, hne, -⟩ := hc.ticker t hticker
  obtain ⟨entry, hentry⟩ := Option.ne_none_iff_exists'.mp hne
  obtain ⟨-, created, hevent⟩ :=
    (hatt.ticker t entry hticker hentry).recording cause gameTime filing hphase
  refine ⟨entry, hentry, hchron.story_of_entry hentry, ?_⟩
  rw [hevent, hworld]
  exact Event.tells_ofWorld_self a t.version created (by rintro ⟨⟩)

theorem Attuned.resumption_tells (hatt : v.Attuned a) (hchron : v.Chronicled a)
    (hc : v.Coherent w a) {t : Ticker} {run : CatchUpRun} {filing : Filing}
    (hticker : v.ticker = some t) (hphase : t.phase = .resuming run filing) :
    ∃ entry, v.entry = some entry ∧ (∃ t, Story a v.events t) ∧
      filing.event.Tells a (.resumed ⟨run.plan.units, run.plan.missed.toMillis⟩) := by
  obtain ⟨hworld, hne, -⟩ := hc.ticker t hticker
  obtain ⟨entry, hentry⟩ := Option.ne_none_iff_exists'.mp hne
  obtain ⟨created, hevent⟩ := (hatt.ticker t entry hticker hentry).resuming run filing hphase
  refine ⟨entry, hentry, hchron.story_of_entry hentry, ?_⟩
  rw [hevent, hworld]
  exact Event.tells_ofWorld_self a t.version created (by rintro ⟨⟩)

end View

/-- What a step of a view and a death keep, with all that the writers of a world keep at their
disposal, holds after every course that starts with an empty log. -/
theorem Manager.live_keeps_of_empty (Keeps : View → Prop) {a : WorldId}
    (hstep : ∀ w m v v', w.IsUsable → v.Coherent w a → v.Chronicled a → v.Attuned a → Keeps v →
      v.Step w m a v' → Keeps v')
    (hdeath : ∀ v, Keeps v → Keeps v.afterDeath) (hempty : Keeps ⟨none, none, none, []⟩)
    {w : Wiring} (hw : w.IsUsable) (projections : Option (Dispatcher ReadModel))
    {course : List Incident} (hown : ∀ i ∈ course, i.IsOwn) :
    let v := ((start w .empty projections).live course).viewOf a
    v.Chronicled a ∧ v.Attuned a ∧ Keeps v := by
  refine live_keeps (fun v => v.Chronicled a ∧ v.Attuned a ∧ Keeps v) ?_ ?_
    (coherent_start w .empty projections) hw ?_ hown
  · rintro w m v v' hw hc ⟨hchron, hatt, hkeeps⟩ hsteps
    exact ⟨hsteps.chronicled hc hchron, hsteps.attuned hc hatt,
      hstep w m v v' hw hc hchron hatt hkeeps hsteps⟩
  · rintro v ⟨hchron, -, hkeeps⟩
    exact ⟨View.chronicled_afterDeath hchron, View.attuned_afterDeath v, hdeath v hkeeps⟩
  · exact ⟨View.chronicled_nil a, View.attuned_afterDeath ⟨none, none, none, []⟩, hempty⟩

/-- The same of what depends on the wiring of the process and on the wall clock, which does not go
back. -/
theorem Manager.live_keeps_in_order (Keeps : Wiring → Instant → View → Prop) {a : WorldId}
    (hmono : ∀ w v now now', now ≤ now' → Keeps w now v → Keeps w now' v)
    (hstep : ∀ w m v v' now, w.IsUsable → v.Coherent w a → v.Chronicled a → v.Attuned a →
      now ≤ m.wall → Keeps w now v → v.Step w m a v' → Keeps w m.wall v')
    (hdeath : ∀ w w' v now, Keeps w now v → Keeps w' now v.afterDeath) {p : Manager}
    (hp : p.Coherent) (hw : p.wiring.IsUsable) (hchron : (p.viewOf a).Chronicled a)
    (hatt : (p.viewOf a).Attuned a) {now : Instant} (hkeeps : Keeps p.wiring now (p.viewOf a))
    {course : List Incident} (hown : ∀ i ∈ course, i.IsOwn) (hclock : InOrder course)
    (hstart : ∀ t ∈ walls course, now ≤ t) {now' : Instant} (hnow : now ≤ now')
    (hend : ∀ t ∈ walls course, t ≤ now') :
    ((p.live course).viewOf a).Chronicled a ∧ ((p.live course).viewOf a).Attuned a ∧
      Keeps (p.live course).wiring now' ((p.live course).viewOf a) := by
  induction course generalizing p now with
  | nil => exact ⟨hchron, hatt, hmono _ _ _ _ hnow hkeeps⟩
  | cons i course ih =>
    have hi : i.IsOwn := hown i List.mem_cons_self
    have hcoherent := hp.meet i
    have husable := isUsable_meet hp hw hi
    have hrest : ∀ j ∈ course, j.IsOwn := fun j hj => hown j (List.mem_cons_of_mem _ hj)
    cases i with
    | move m move =>
      have hwalls : walls (.move m move :: course) = m.wall :: walls course := rfl
      rw [hwalls, List.forall_mem_cons] at hstart hend
      rw [InOrder, hwalls, List.pairwise_cons] at hclock
      have hwiring : (p.meet (.move m move)).wiring = p.wiring := apply_wiring hp m move
      obtain heq | hsteps := apply_step hp m hi a
      · have hview : (p.meet (.move m move)).viewOf a = p.viewOf a := heq
        refine ih hcoherent husable (hview ▸ hchron) (hview ▸ hatt) ?_ hrest hclock.2 hclock.1
          hend.1 hend.2
        rw [hview, hwiring]
        exact hmono _ _ _ _ hstart.1 hkeeps
      · refine ih hcoherent husable (hsteps.chronicled (hp a) hchron)
          (hsteps.attuned (hp a) hatt) ?_ hrest hclock.2 hclock.1 hend.1 hend.2
        rw [hwiring]
        exact hstep _ m _ _ now hw (hp a) hchron hatt hstart.1 hkeeps hsteps
    | death wiring projections =>
      exact ih hcoherent husable (View.chronicled_afterDeath hchron)
        (View.attuned_afterDeath (p.viewOf a)) (hdeath _ _ _ _ hkeeps) hrest hclock hstart hnow hend

/-- The log keeps the history of a world in the order in which it was written. -/
theorem Manager.byAggregate_live {w : Wiring} (hw : w.IsUsable)
    (projections : Option (Dispatcher ReadModel)) {course : List Incident}
    (hown : ∀ i ∈ course, i.IsOwn) (a : WorldId) :
    ((start w .empty projections).live course).surroundings.log.byAggregate a.text 1 =
      (((start w .empty projections).live course).viewOf a).events.reverse := by
  obtain ⟨hchron, -⟩ := live_keeps_of_empty (fun _ => True) (fun _ _ _ _ _ _ _ _ _ _ => trivial)
    (fun _ _ => trivial) trivial hw projections hown (a := a)
  exact EventLog.byAggregate_eq hchron.ascends

end WorldClock
