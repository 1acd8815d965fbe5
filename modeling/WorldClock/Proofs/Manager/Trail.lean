import WorldClock.Proofs.Manager.SoleWriter

/-!
# The timeline trails the registry

The timeline of a world trails its entry: its totals never pass those of the entry, however many
appends of ticks were lost. The event of a pause carries the entry's totals, so once it is stored
the two are level (`View.Followed`). Events count game time in 64 bits of nanoseconds, so they are
level in game time only as far as that goes.
-/

namespace WorldClock

theorem Duration.ofNanoCount_toNanoCount_le (d : Duration) :
    Duration.ofNanoCount d.toNanoCount ≤ d := by
  change min (Count.ofNat d.nanos).toNat Duration.maxNanos ≤ d.nanos
  rw [Count.toNat_ofNat]
  omega

theorem Duration.ofNanoCount_toNanoCount {d : Duration} (h : d.nanos ≤ Count.greatest) :
    Duration.ofNanoCount d.toNanoCount = d := by
  have hle := d.nanos_le
  refine Duration.ext ?_
  change min (Count.ofNat d.nanos).toNat Duration.maxNanos = d.nanos
  rw [Count.toNat_ofNat]
  omega

theorem Duration.ofNanoCount_mono {a b : Duration} (h : a ≤ b) :
    Duration.ofNanoCount a.toNanoCount ≤ Duration.ofNanoCount b.toNanoCount := by
  have hle : a.nanos ≤ b.nanos := h
  change min (Count.ofNat a.nanos).toNat Duration.maxNanos ≤
    min (Count.ofNat b.nanos).toNat Duration.maxNanos
  rw [Count.toNat_ofNat, Count.toNat_ofNat]
  omega

theorem Duration.max_le {a b c : Duration} (ha : a ≤ c) (hb : b ≤ c) : a.max b ≤ c := by
  rw [Duration.max]
  split
  · exact hb
  · exact ha

theorem Duration.le_max_left (a b : Duration) : a ≤ a.max b := by
  change a.nanos ≤ (a.max b).nanos
  rw [Duration.nanos_max]
  exact Nat.le_max_left _ _

theorem Duration.max_eq_right {a b : Duration} (h : a ≤ b) : a.max b = b := if_pos h

theorem Duration.max_le_max {a b c d : Duration} (hac : a ≤ c) (hbd : b ≤ d) :
    a.max b ≤ c.max d := by
  have hac' : a.nanos ≤ c.nanos := hac
  have hbd' : b.nanos ≤ d.nanos := hbd
  change (a.max b).nanos ≤ (c.max d).nanos
  rw [Duration.nanos_max, Duration.nanos_max]
  exact Nat.max_le.mpr ⟨Nat.le_trans hac' (Nat.le_max_left _ _),
    Nat.le_trans hbd' (Nat.le_max_right _ _)⟩

namespace Timeline

/-- The totals of a timeline have not passed those of an entry. -/
structure Trails (t : Timeline) (entry : World) : Prop where
  tickCount : t.tickCount ≤ entry.tickCount
  gameTime : t.gameTime ≤ entry.gameTime
  weather : t.weatherSyncedAt ≤ entry.weatherSyncedAt

/-- A timeline is level with a paused entry, as far as 64 bits of nanoseconds tell. -/
structure IsLevel (t : Timeline) (entry : World) : Prop where
  tickCount : t.tickCount = entry.tickCount
  pausedAt : t.pausedAt = entry.pausedAt
  gameTime : entry.gameTime.nanos ≤ Count.greatest → t.gameTime = entry.gameTime
  weather : entry.weatherSyncedAt.nanos ≤ Count.greatest → t.weatherSyncedAt = entry.weatherSyncedAt

variable {t : Timeline} {entry : World}

theorem trails_toWorld (t : Timeline) : t.Trails t.toWorld :=
  ⟨UInt64.le_refl _, Nat.le_refl _, Nat.le_refl _⟩

theorem Trails.mono {entry' : World} (h : t.Trails entry)
    (hticks : entry.tickCount ≤ entry'.tickCount) (htime : entry.gameTime ≤ entry'.gameTime)
    (hweather : entry.weatherSyncedAt ≤ entry'.weatherSyncedAt) : t.Trails entry' where
  tickCount := UInt64.le_trans h.tickCount hticks
  gameTime := Nat.le_trans h.gameTime htime
  weather := Nat.le_trans h.weather hweather

/-- The event of a tick brings a timeline no further than the entry. -/
theorem Trails.ticked (h : t.Trails entry) (e : Event) (ticker : Ticker) (cause : TickCause) :
    (t.after e (ticker.tickDetails cause entry)).Trails entry where
  tickCount := UInt64.le_of_eq (if_pos h.tickCount)
  gameTime := Duration.max_le h.gameTime (Duration.ofNanoCount_toNanoCount_le _)
  weather := h.weather

/-- The event of a pause brings a timeline level with the entry. -/
theorem Trails.isLevel (h : t.Trails entry) (e : Event) {pausedAt : Instant}
    (hpausedAt : entry.pausedAt = some pausedAt) :
    (t.after e (.paused ⟨entry.tickCount, entry.gameTime.toNanoCount, some pausedAt,
      entry.weatherSyncedAt.toNanoCount⟩)).IsLevel entry where
  tickCount := if_pos h.tickCount
  pausedAt := hpausedAt.symm
  gameTime hfits := by
    have htold : Duration.ofNanoCount entry.gameTime.toNanoCount = entry.gameTime :=
      Duration.ofNanoCount_toNanoCount hfits
    change t.gameTime.max (Duration.ofNanoCount entry.gameTime.toNanoCount) = _
    rw [htold, Duration.max_eq_right h.gameTime]
  weather hfits := by
    have htold : Duration.ofNanoCount entry.weatherSyncedAt.toNanoCount = entry.weatherSyncedAt :=
      Duration.ofNanoCount_toNanoCount hfits
    change t.weatherSyncedAt.max (Duration.ofNanoCount entry.weatherSyncedAt.toNanoCount) = _
    rw [htold, Duration.max_eq_right h.weather]

theorem Trails.paused (h : t.Trails entry) (e : Event) (pausedAt : Option Instant) :
    (t.after e (.paused ⟨entry.tickCount, entry.gameTime.toNanoCount, pausedAt,
      entry.weatherSyncedAt.toNanoCount⟩)).Trails entry where
  tickCount := UInt64.le_of_eq (if_pos h.tickCount)
  gameTime := Duration.max_le h.gameTime (Duration.ofNanoCount_toNanoCount_le _)
  weather := Duration.max_le h.weather (Duration.ofNanoCount_toNanoCount_le _)

end Timeline

/-- A step of a ticker moves the totals and the mark of the weather on only. -/
theorem Ticker.Goes.moves {w : Wiring} {m : Moment} {t t' : Ticker} {entry entry' : World}
    (h : t.Goes w m entry t' entry') (ht : t.Attuned entry)
    (hordered : entry.weatherSyncedAt ≤ entry.gameTime) :
    entry.tickCount ≤ entry'.tickCount ∧ entry.gameTime ≤ entry'.gameTime ∧
      entry.weatherSyncedAt ≤ entry'.weatherSyncedAt ∧
      entry'.weatherSyncedAt ≤ entry'.gameTime := by
  cases h with
  | tick | tickUnpublished =>
    have htime := Duration.le_add entry.gameTime t.delta
    exact ⟨Count.le_next _, htime, Nat.le_refl _, Nat.le_trans hordered htime⟩
  | complete =>
    obtain heq | ⟨-, heq⟩ := World.markRunning_eq entry
    · rw [heq]
      exact ⟨UInt64.le_refl _, Nat.le_refl _, Nat.le_refl _, hordered⟩
    · rw [heq]
      exact ⟨UInt64.le_refl _, Nat.le_refl _, Nat.le_refl _, hordered⟩
  | @asked cause gameTime filing r r' hphase =>
    obtain ⟨rfl, -⟩ := ht.recording cause gameTime filing hphase
    exact ⟨UInt64.le_refl _, Nat.le_refl _, hordered, Nat.le_refl _⟩
  | _ => exact ⟨UInt64.le_refl _, Nat.le_refl _, Nat.le_refl _, hordered⟩

namespace View

/-- The timeline of a world trails its entry, and a stored pause has brought them level. -/
structure Followed (a : WorldId) (v : View) : Prop where
  trails : ∀ t entry, Story a v.events t → v.entry = some entry → t.Trails entry
  timeline : ∀ t, Story a v.events t → t.weatherSyncedAt ≤ t.gameTime
  entry : ∀ entry, v.entry = some entry → entry.weatherSyncedAt ≤ entry.gameTime
  stopped : ∀ filing world pending, v.errand = some (.stop a (.recording filing world pending)) →
    filing.verdict = some (.ok ()) → ∃ t, Story a v.events t ∧ t.IsLevel world

variable {w : Wiring} {m : Moment} {a : WorldId} {v v' : View}

theorem Followed.move (hv : v.Followed a) {entry : World} (entry' : World)
    (hentry : v.entry = some entry) (hticks : entry.tickCount ≤ entry'.tickCount)
    (htime : entry.gameTime ≤ entry'.gameTime)
    (hweather : entry.weatherSyncedAt ≤ entry'.weatherSyncedAt)
    (hordered : entry'.weatherSyncedAt ≤ entry'.gameTime) {ticker : Option Ticker}
    {errand : Option Errand} (herrand : ∀ filing world pending,
      errand = some (.stop a (.recording filing world pending)) → filing.verdict = none) :
    (View.mk (some entry') ticker errand v.events).Followed a where
  trails t e hstory he := by
    cases he
    exact (hv.trails t entry hstory hentry).mono hticks htime hweather
  timeline := hv.timeline
  entry e he := by
    cases he
    exact hordered
  stopped filing world pending he hverdict := by
    rw [herrand filing world pending he] at hverdict
    cases hverdict

theorem followed_paused (hv : v.Followed a) {entry : World} (hentry : v.entry = some entry)
    (version pending : Count) : (v.paused w m a entry version pending).Followed a := by
  let pausedAt := m.wall.backDated w.clock.tickInterval pending
  refine hv.move (World.paused pausedAt entry) hentry (UInt64.le_refl _) (Nat.le_refl _)
    (Nat.le_refl _) (hv.entry entry hentry) ?_
  intro filing world pending' heq
  cases heq
  rfl

theorem followed_takenUp (hv : v.Followed a) {order : SpawnOrder} {known entry : World}
    {t : Ticker} (hentry : v.entry = some entry) :
    (v.takenUp w m order known entry t).Followed a := by
  let plan := known.planAt w.clock.tickInterval m.wall
  refine hv.move (Manager.resumed order plan entry) hentry (UInt64.le_refl _) (Nat.le_refl _)
    (Nat.le_refl _) (hv.entry entry hentry) ?_
  intro filing world pending he
  cases he

/-- An errand or a ticker that changes nothing of the entry and the history. -/
theorem Followed.same (hv : v.Followed a) {ticker : Option Ticker} {errand : Option Errand}
    (herrand : ∀ filing world pending,
      errand ≠ some (.stop a (.recording filing world pending))) :
    (View.mk v.entry ticker errand v.events).Followed a :=
  ⟨hv.trails, hv.timeline, hv.entry,
    fun filing world pending he => absurd he (herrand filing world pending)⟩

/-- A history that the log has been given an event of. -/
theorem Followed.filed (hv : v.Followed a) {f f' : Filing} {events' : List Event} {d : Details}
    (hfiles : f.Files v.events f' events') (hstory : ∃ t, Story a v.events t)
    (htells : f.event.Tells a d) {entry : World} (hentry : v.entry = some entry)
    (htrails : ∀ t : Timeline, t.Trails entry → (t.after f.event d).Trails entry)
    (hordered : ∀ t : Timeline, t.weatherSyncedAt ≤ t.gameTime →
      (t.after f.event d).weatherSyncedAt ≤ (t.after f.event d).gameTime)
    {ticker : Option Ticker} {errand : Option Errand}
    (herrand : ∀ filing world pending, errand = some (.stop a (.recording filing world pending)) →
      filing.verdict = some (.ok ()) → ∃ t, Story a events' t ∧ t.IsLevel world) :
    (View.mk v.entry ticker errand events').Followed a where
  trails t e ht he := by
    rw [hentry] at he
    cases he
    obtain ⟨hold, -⟩ | ⟨hold, -⟩ | ⟨t₀, hold, rfl⟩ := hfiles.story_cases hstory htells ht
    · exact hv.trails t entry hold hentry
    · exact hv.trails t entry hold hentry
    · exact htrails t₀ (hv.trails t₀ entry hold hentry)
  timeline t ht := by
    obtain ⟨hold, -⟩ | ⟨hold, -⟩ | ⟨t₀, hold, rfl⟩ := hfiles.story_cases hstory htells ht
    · exact hv.timeline t hold
    · exact hv.timeline t hold
    · exact hordered t₀ (hv.timeline t₀ hold)
  entry := hv.entry
  stopped := herrand

/-- A step keeps the timeline of a world behind its entry. -/
theorem Step.followed (hc : v.Coherent w a) (hchron : v.Chronicled a) (hatt : v.Attuned a)
    (hv : v.Followed a) (h : v.Step w m a v') : v'.Followed a := by
  cases h with
  | askKnown | askUnknown | create | announce | giveUp | askStop | breakDown =>
    refine hv.same ?_
    intro filing world pending heq
    cases heq
  | @restore order t count herrand hworld hhistory =>
    obtain ⟨t', hstory, hsame⟩ := hchron.story_of_restore hhistory
    rw [← hsame]
    refine ⟨fun t₀ entry ht₀ he => ?_, hv.timeline, fun entry he => ?_,
      by rintro filing world pending ⟨⟩⟩
    · cases he
      rw [ht₀.unique hstory]
      exact Timeline.trails_toWorld t'
    · cases he
      exact hv.timeline t' hstory
  | takeUp herrand hannounce hentry hnew => exact followed_takenUp hv hentry
  | takeUpAnnounced herrand hfiled hentry hnew => exact followed_takenUp hv hentry
  | @enroll order filing t herrand hfiled hnew =>
    refine ⟨fun t₀ entry ht₀ he => ?_, hv.timeline, fun entry he => ?_,
      by rintro filing world pending ⟨⟩⟩
    · cases he
      obtain ⟨d, rfl⟩ := hchron.story_of_created herrand hfiled ht₀
      exact ⟨UInt64.le_refl _, Nat.le_refl _, Nat.le_refl _⟩
    · cases he
      exact Nat.le_refl _
  | @fileCreation order filing filing' events' herrand hfiles =>
    obtain ⟨-, -, -, hentry, -⟩ := hc.errand _ herrand
    refine ⟨by simp [hentry], fun t ht => ?_, hv.entry, by rintro filing world pending ⟨⟩⟩
    obtain hold | ⟨d, rfl⟩ := hchron.story_of_creation herrand hfiles ht
    · exact hv.timeline t hold
    · exact Nat.le_refl _
  | @fileAnnouncement order known filing filing' events' herrand hfiles =>
    obtain ⟨hentry, hstory, d, htells⟩ := hatt.announcing_tells hchron herrand
    exact hv.filed hfiles hstory htells hentry
      (fun t ht => ⟨ht.tickCount, ht.gameTime, ht.weather⟩) (fun t ht => ht)
      (by rintro filing world pending ⟨⟩)
  | @filePause world pending filing filing' events' herrand hfiles =>
    obtain ⟨hentry, hstory, pausedAt, hpausedAt, htells⟩ := hatt.pause_tells hchron herrand
    refine hv.filed hfiles hstory htells hentry (fun t ht => ht.paused _ _)
      (fun t ht => Duration.max_le_max ht (Duration.ofNanoCount_mono (hv.entry world hentry))) ?_
    intro f world' pending' he hverdict
    obtain ⟨-, hstage⟩ := Errand.stop.inj (Option.some.inj he)
    obtain ⟨rfl, rfl, rfl⟩ := StopStage.recording.inj hstage
    cases hfiles with
    | again => exact hv.stopped filing world pending herrand hverdict
    | stored =>
      obtain ⟨t, ht⟩ := hstory
      exact ⟨_, ht.next htells, (hv.trails t world ht hentry).isLevel _ hpausedAt⟩
    | refused => cases hverdict
  | pause herrand hticker hphase hentry => exact followed_paused hv hentry _ _
  | pauseBroken herrand hentry => exact followed_paused hv hentry _ _
  | @goes t t' entry entry' hticker hentry hgoes =>
    obtain ⟨hticks, htime, hweather, hordered⟩ :=
      hgoes.moves (hatt.ticker t entry hticker hentry) (hv.entry entry hentry)
    refine hv.move entry' hentry hticks htime hweather hordered fun filing world pending he => ?_
    cases hc.errand_eq_joining hticker he
  | @fileTick t cause gameTime filing filing' events' hticker hphase hfiles =>
    obtain ⟨entry, hentry, hstory, htells⟩ := hatt.tick_tells hchron hc hticker hphase
    refine hv.filed hfiles hstory htells hentry (fun t₀ ht => ht.ticked _ t cause)
      (fun t₀ ht => ?_) fun f world pending he => ?_
    · exact Nat.le_trans ht (Duration.le_max_left _ _)
    · cases hc.errand_eq_joining hticker he
  | @fileResumption t run filing filing' events' hticker hphase hfiles =>
    obtain ⟨entry, hentry, hstory, htells⟩ := hatt.resumption_tells hchron hc hticker hphase
    refine hv.filed hfiles hstory htells hentry
      (fun t₀ ht => ⟨ht.tickCount, ht.gameTime, ht.weather⟩) (fun t₀ ht => ht)
      fun f world pending he => ?_
    cases hc.errand_eq_joining hticker he

theorem followed_afterDeath (hv : v.Followed a) : v.afterDeath.Followed a :=
  ⟨by rintro t entry ht ⟨⟩, hv.timeline, by rintro entry ⟨⟩, by rintro filing world pending ⟨⟩⟩

end View

end WorldClock
