import WorldClock.Proofs.Manager.Observation
import WorldClock.Proofs.Manager.Trail
import WorldClock.Proofs.Manager.WeatherCalls

/-!
# The mark of the weather

The game time of the last weather call is kept in four places: a ticker counts from its own mark,
the next one is given that of the entry, a pause tells it to the log, and a restored entry has it
from there. `View.Marked` says where it is at any moment: in the ticker and in the entry always, and
in the log once a stop is done well, until a ticker starts. `View.Paced` says how far the game time
of a world has gone beyond it. Neither needs the registry to be left alone, as long as nobody else
writes the mark (`View.Marked`) or the game time (`View.Paced`).
-/

namespace WorldClock

/-! ### What the log is told -/

/-- Nothing is told that is later than a game time and a mark of the weather. -/
def Details.Within (d : Details) (gameTime mark : Duration) : Prop :=
  match d with
  | .ticked d => d.gameTime ≤ gameTime
  | .paused d => d.gameTime ≤ gameTime ∧ d.weatherSyncedAt ≤ mark
  | .created _ | .resumed _ => True

theorem Details.Within.mono {d : Details} {gameTime gameTime' mark mark' : Duration}
    (h : d.Within gameTime mark) (htime : gameTime ≤ gameTime') (hmark : mark ≤ mark') :
    d.Within gameTime' mark' := by
  cases d with
  | created d | resumed d => trivial
  | ticked d => exact Nat.le_trans h htime
  | paused d => exact ⟨Nat.le_trans h.1 htime, Nat.le_trans h.2 hmark⟩

namespace Timeline

/-- A timeline has passed neither a game time nor a mark of the weather. -/
structure Within (t : Timeline) (gameTime mark : Duration) : Prop where
  gameTime : t.gameTime ≤ gameTime
  mark : t.weatherSyncedAt ≤ mark

theorem Within.after {t : Timeline} {gameTime mark : Duration} (h : t.Within gameTime mark)
    (e : Event) {d : Details} (hd : d.Within gameTime mark) :
    (t.after e d).Within gameTime mark := by
  cases d with
  | created d | resumed d => exact ⟨h.gameTime, h.mark⟩
  | ticked d => exact ⟨Duration.max_le h.gameTime hd, h.mark⟩
  | paused d => exact ⟨Duration.max_le h.gameTime hd.1, Duration.max_le h.mark hd.2⟩

theorem weatherSyncedAt_le_after (t : Timeline) (e : Event) (d : Details) :
    t.weatherSyncedAt ≤ (t.after e d).weatherSyncedAt := by
  cases d with
  | created d | ticked d | resumed d => exact Nat.le_refl _
  | paused d => exact Duration.le_max_left _ _

end Timeline

/-! ### Steps of a ticker -/

/-- The game time of the tick that a ticker is at, until it is settled whether the weather is asked
for. -/
def Phase.tickTime? : Phase → Option Duration
  | .publishing _ world => some world.gameTime
  | .recording _ gameTime _ => some gameTime
  | _ => none

theorem Phase.tickTime?_restAfter (w : Wiring) (cause : TickCause) :
    (Ticker.restAfter w cause).tickTime? = none :=
  Ticker.restAfter_cases w cause (fun _ => rfl) (fun _ => rfl) fun _ => rfl

namespace Ticker

variable {w : Wiring} {m : Moment} {t t' : Ticker} {entry entry' : World}

/-- A ticker asks for the weather. -/
structure Calls (w : Wiring) (t : Ticker) (entry : World) (t' : Ticker) (entry' : World)
    (gameTime : Duration) : Prop where
  before : t.phase.tickTime? = some gameTime
  due : w.clock.weatherInterval ≤ gameTime.sub t.weatherSyncedAt
  after : t'.phase.tickTime? = none
  mark : t'.weatherSyncedAt = gameTime
  entry : entry' = { entry with weatherSyncedAt := gameTime }
  asks : t.phase.asks t'.phase =
    some (Utc.synthetic w.clock.epoch gameTime, w.calendar.season gameTime)

/-- A ticker goes on without asking for the weather. -/
structure Passes (t : Ticker) (entry : World) (t' : Ticker) (entry' : World) : Prop where
  mark : t'.weatherSyncedAt = t.weatherSyncedAt
  entryMark : entry'.weatherSyncedAt = entry.weatherSyncedAt
  asks : t.phase.asks t'.phase = none

/-- What a step of a ticker is to the weather. -/
inductive Paces (w : Wiring) (m : Moment) (t : Ticker) (entry : World) (t' : Ticker)
    (entry' : World) : Prop where
  | begins (hpasses : t.Passes entry t' entry') (hbefore : t.phase.tickTime? = none)
    (hafter : t'.phase.tickTime? = some (entry.gameTime.add t.delta))
    (hentry : entry'.gameTime = entry.gameTime.add t.delta)
  | waits (hpasses : t.Passes entry t' entry')
    (hsame : t'.phase.tickTime? = t.phase.tickTime?) (hentry : entry'.gameTime = entry.gameTime)
  | spares {gameTime : Duration} (hpasses : t.Passes entry t' entry')
    (hbefore : t.phase.tickTime? = some gameTime) (hafter : t'.phase.tickTime? = none)
    (hearly : gameTime.sub t.weatherSyncedAt < w.clock.weatherInterval ∨ w.asksWeather = false)
    (hentry : entry'.gameTime = entry.gameTime)
  | calls {gameTime : Duration} (hcalls : t.Calls w entry t' entry' gameTime)
  | breaks (hpasses : t.Passes entry t' entry') (hafter : t'.phase.tickTime? = none)
    (hbroken : t'.phase.isCrashed = true) (hentry : entry'.gameTime = entry.gameTime)

theorem Goes.delta_eq (h : t.Goes w m entry t' entry') : t'.delta = t.delta := by
  cases h <;> rfl

theorem Begins.tickTime?_eq {cause : TickCause} (h : t.Begins w m cause) :
    t.phase.tickTime? = none := by
  cases h with
  | owed hphase | due hphase => rw [hphase]; rfl

theorem passes_of_after (hmark : t'.weatherSyncedAt = t.weatherSyncedAt)
    (hentry : entry'.weatherSyncedAt = entry.weatherSyncedAt) (hafter : t'.phase.asked? = none) :
    t.Passes entry t' entry' :=
  ⟨hmark, hentry, Phase.asks_of_after _ hafter⟩

theorem Paces.passes (h : t.Paces w m entry t' entry') (hasks : t.phase.asks t'.phase = none) :
    t.Passes entry t' entry' := by
  cases h with
  | begins hpasses | waits hpasses | spares hpasses | breaks hpasses => exact hpasses
  | calls hcalls => cases hasks.symm.trans hcalls.asks

theorem Goes.paces (h : t.Goes w m entry t' entry') : t.Paces w m entry t' entry' := by
  cases h with
  | tick hbegins | tickUnpublished hbegins =>
    exact .begins (passes_of_after rfl rfl rfl) hbegins.tickTime?_eq rfl rfl
  | published hphase =>
    exact .waits (passes_of_after rfl rfl rfl) (by rw [hphase]; rfl) rfl
  | recorded hphase houtcome hweather =>
    exact .spares (passes_of_after rfl rfl (Phase.asked?_restAfter w _)) (by rw [hphase]; rfl)
      (Phase.tickTime?_restAfter w _) hweather rfl
  | asked hphase houtcome hweather hasks =>
    refine .calls ⟨by rw [hphase]; rfl, hweather, rfl, rfl, rfl, ?_⟩
    rw [hphase]
    rfl
  | weathered hphase =>
    refine .waits (passes_of_after rfl rfl (Phase.asked?_restAfter w _)) ?_ rfl
    rw [hphase]
    exact Phase.tickTime?_restAfter w _
  | complete hphase =>
    have hentry : (markRunning entry).weatherSyncedAt = entry.weatherSyncedAt ∧
        (markRunning entry).gameTime = entry.gameTime := by
      obtain heq | ⟨-, heq⟩ := World.markRunning_eq entry <;> rw [heq] <;> exact ⟨rfl, rfl⟩
    exact .waits (passes_of_after rfl hentry.1 rfl) (by rw [hphase]; rfl) hentry.2
  | begin hphase | beginReplay hphase | goOn hphase | endReplay hphase | interrupt hphase
  | resumed hphase | halt hphase =>
    exact .waits (passes_of_after rfl rfl rfl) (by rw [hphase]; rfl) rfl
  | crash culprit hover => exact .breaks (passes_of_after rfl rfl rfl) rfl rfl rfl

/-- The clock does not go back, and a tick that begins is as far as the clock. -/
theorem Paces.clock (h : t.Paces w m entry t' entry') : entry.gameTime ≤ entry'.gameTime ∧
    ∀ tickTime, t'.phase.tickTime? = some tickTime →
      t.phase.tickTime? = some tickTime ∨ tickTime = entry'.gameTime := by
  cases h with
  | begins hpasses hnone hafter hnow =>
    rw [hnow, hafter]
    exact ⟨Duration.le_add _ _, by rintro _ ⟨⟩; exact .inr rfl⟩
  | waits hpasses hsame hnow =>
    rw [hnow, hsame]
    exact ⟨Nat.le_refl _, fun _ => .inl⟩
  | spares hpasses hbefore hafter hearly hnow | breaks hpasses hafter hbroken hnow =>
    rw [hnow, hafter]
    exact ⟨Nat.le_refl _, by rintro _ ⟨⟩⟩
  | calls hcalls =>
    rw [hcalls.entry, hcalls.after]
    exact ⟨Nat.le_refl _, by rintro _ ⟨⟩⟩

/-- An append that a ticker has begun tells of the tick that it is at, or of no time at all. -/
theorem Goes.tells_within (h : t.Goes w m entry t' entry') {f : Filing}
    (hfiling : t'.filing? = some f) {gameTime : Duration} (mark : Duration)
    (htick : ∀ tickTime, t'.phase.tickTime? = some tickTime → tickTime ≤ gameTime) :
    ∃ d, f.event.Tells t.world d ∧ d.Within gameTime mark := by
  cases h with
  | tickUnpublished | published =>
    cases hfiling
    refine ⟨.ticked _, Event.tells_ofWorld_self _ _ _ (by rintro ⟨⟩), ?_⟩
    exact Nat.le_trans (Duration.ofNanoCount_toNanoCount_le _) (htick _ rfl)
  | complete =>
    cases hfiling
    exact ⟨.resumed _, Event.tells_ofWorld_self _ _ _ (by rintro ⟨⟩), trivial⟩
  | recorded | weathered =>
    rw [filing?_endTick] at hfiling
    cases hfiling
  | _ => cases hfiling

end Ticker

/-- A call for the weather, and the tick that makes it. -/
structure WeatherCall where
  wiring : Wiring
  /-- The game time after the tick. -/
  gameTime : Duration
  /-- The game time that the tick has added. -/
  delta : Duration
  synthetic : Utc
  season : Season

/-- The game time of the last of some calls, the latest one first; zero if there is none. -/
def WeatherCall.last (calls : List WeatherCall) : Duration :=
  (calls.head?.map (·.gameTime)).getD Duration.zero

namespace View

variable {w : Wiring} {m : Moment} {a : WorldId} {v v' : View}

/-- The game time of the tick that is under way, until it is settled whether the weather is asked
for. -/
def tickTime? (v : View) : Option Duration := v.ticker.bind (·.phase.tickTime?)

theorem tickTime?_of_ticker {t : Ticker} (hticker : v.ticker = some t) :
    v.tickTime? = t.phase.tickTime? := by
  rw [tickTime?, hticker, Option.bind_some]

/-- The game time that a tick of the world adds. -/
def tickDelta (v : View) : Duration := (v.ticker.map (·.delta)).getD Duration.zero

theorem tickDelta_of_ticker {t : Ticker} (hticker : v.ticker = some t) : v.tickDelta = t.delta := by
  rw [tickDelta, hticker, Option.map_some, Option.getD_some]

theorem tickTime?_of_none (hticker : v.ticker = none) : v.tickTime? = none := by
  rw [tickTime?, hticker, Option.bind_none]

theorem asks_of_none (hticker : v.ticker = none ∨ v'.ticker = none) : v.asks v' = none := by
  rw [asks]
  obtain hnone | hnone := hticker
  · rw [hnone]
  · rw [hnone]
    cases v.ticker <;> rfl

theorem asks_eq {t t' : Ticker} (hticker : v.ticker = some t) (hticker' : v'.ticker = some t') :
    v.asks v' = t.phase.asks t'.phase := by
  simp only [asks, hticker, hticker']

/-! ### The log does not pass the entry

A timeline takes the greatest game time and the greatest mark that it is told of. So a pause that
tells of the entry leaves the mark of the entry in the log only if the log has none that is
greater. -/

/-- Neither the timeline of a world nor an append that is under way has passed the entry. -/
structure EntryLeads (a : WorldId) (v : View) : Prop where
  tick : ∀ entry tickTime, v.entry = some entry → v.tickTime? = some tickTime →
    tickTime ≤ entry.gameTime
  filing : ∀ entry f, v.entry = some entry → v.filing? = some f →
    ∃ d, f.event.Tells a d ∧ d.Within entry.gameTime entry.weatherSyncedAt
  timeline : ∀ entry t, v.entry = some entry → Story a v.events t →
    t.Within entry.gameTime entry.weatherSyncedAt

theorem entryLeads_of_none (hentry : v.entry = none) : v.EntryLeads a where
  tick _ _ he := nomatch hentry.symm.trans he
  filing _ _ he := nomatch hentry.symm.trans he
  timeline _ _ he := nomatch hentry.symm.trans he

namespace EntryLeads

theorem idle (h : v.EntryLeads a) {entry entry' : World} (hentry : v.entry = some entry)
    (htime : entry'.gameTime = entry.gameTime)
    (hmark : entry'.weatherSyncedAt = entry.weatherSyncedAt) {ticker : Option Ticker}
    {errand : Option Errand}
    (htick : (View.mk (some entry') ticker errand v.events).tickTime? = none)
    (hfiling : (View.mk (some entry') ticker errand v.events).filing? = none) :
    (View.mk (some entry') ticker errand v.events).EntryLeads a where
  tick _ _ _ htickTime := nomatch htick.symm.trans htickTime
  filing _ _ _ hf := nomatch hfiling.symm.trans hf
  timeline e t he hstory := by
    cases he
    rw [htime, hmark]
    exact h.timeline entry t hentry hstory

theorem onErrand (h : v.EntryLeads a) {errand : Option Errand}
    (hfiling : errand.bind Errand.filing? = none) :
    (View.mk v.entry none errand v.events).EntryLeads a := by
  cases hentry : v.entry with
  | none => exact entryLeads_of_none rfl
  | some entry => exact h.idle hentry rfl rfl rfl hfiling

theorem filed (h : v.EntryLeads a) {f f' : Filing} {events' : List Event}
    (hfiling : v.filing? = some f) (hfiles : f.Files v.events f' events')
    (hstory : ∃ t, Story a v.events t) {ticker : Option Ticker} {errand : Option Errand}
    (htick : (View.mk v.entry ticker errand events').tickTime? = v.tickTime?)
    (hafter : (View.mk v.entry ticker errand events').filing? = some f') :
    (View.mk v.entry ticker errand events').EntryLeads a where
  tick entry tickTime he htickTime := h.tick entry tickTime he (htick.symm.trans htickTime)
  filing entry g he hg := by
    cases hafter.symm.trans hg
    rw [hfiles.event_eq]
    exact h.filing entry f he hfiling
  timeline entry t he ht := by
    obtain ⟨d, htells, hwithin⟩ := h.filing entry f he hfiling
    obtain ⟨hold, -⟩ | ⟨hold, -⟩ | ⟨t₀, hold, rfl⟩ := hfiles.story_cases hstory htells ht
    · exact h.timeline entry t he hold
    · exact h.timeline entry t he hold
    · exact (h.timeline entry t₀ he hold).after _ hwithin

theorem paused (h : v.EntryLeads a) {entry : World} (hentry : v.entry = some entry)
    (version pending : Count) : (v.paused w m a entry version pending).EntryLeads a where
  tick _ _ _ htickTime := nomatch htickTime
  filing e f he hf := by
    cases he
    cases hf
    exact ⟨_, World.tells_pauseEvent _ a _ _ _, Duration.ofNanoCount_toNanoCount_le _,
      Duration.ofNanoCount_toNanoCount_le _⟩
  timeline e t he hstory := by
    cases he
    exact h.timeline entry t hentry hstory

theorem goes (h : v.EntryLeads a) (hc : v.Coherent w a)
    (hinterval : 0 < w.clock.weatherInterval.nanos) {t t' : Ticker} {entry entry' : World}
    (hticker : v.ticker = some t) (hentry : v.entry = some entry)
    (hgoes : t.Goes w m entry t' entry') (hmark : entry.weatherSyncedAt = t.weatherSyncedAt) :
    (View.mk (some entry') (some t') v.errand v.events).EntryLeads a := by
  obtain ⟨htime, hticks⟩ := hgoes.paces.clock
  have htick : ∀ tickTime, t'.phase.tickTime? = some tickTime → tickTime ≤ entry'.gameTime := by
    intro tickTime hafter
    obtain hbefore | rfl := hticks tickTime hafter
    · have hbehind := h.tick entry tickTime hentry ((tickTime?_of_ticker hticker).trans hbefore)
      exact Nat.le_trans hbehind htime
    · exact Nat.le_refl _
  have hmoved : entry.weatherSyncedAt ≤ entry'.weatherSyncedAt := by
    cases hgoes.paces with
    | begins hpasses | waits hpasses | spares hpasses | breaks hpasses =>
      rw [hpasses.entryMark]
      exact Nat.le_refl _
    | @calls gameTime hcalls =>
      have hdue : w.clock.weatherInterval.nanos ≤ (gameTime.sub t.weatherSyncedAt).nanos :=
        hcalls.due
      rw [Duration.nanos_sub] at hdue
      rw [hcalls.entry, hmark]
      change t.weatherSyncedAt.nanos ≤ gameTime.nanos
      omega
  refine ⟨?_, ?_, ?_⟩
  · intro e tickTime he
    cases he
    exact htick tickTime
  · intro e f he hf
    cases he
    have hworld := hc.world_eq hticker
    exact hworld ▸ hgoes.tells_within hf entry'.weatherSyncedAt htick
  · intro e t₀ he hstory
    cases he
    obtain ⟨hold, hmarkOld⟩ := h.timeline entry t₀ hentry hstory
    exact ⟨Nat.le_trans hold htime, Nat.le_trans hmarkOld hmoved⟩

theorem update (h : v.EntryLeads a) {entry new : World} (hentry : v.entry = some entry)
    (htime : entry.gameTime ≤ new.gameTime)
    (hmark : new.weatherSyncedAt = entry.weatherSyncedAt) :
    ({ v with entry := some new } : View).EntryLeads a where
  tick e tickTime he htickTime := by
    cases he
    exact Nat.le_trans (h.tick entry tickTime hentry htickTime) htime
  filing e f he hf := by
    cases he
    obtain ⟨d, htells, hwithin⟩ := h.filing entry f hentry hf
    exact ⟨d, htells, hwithin.mono htime (hmark ▸ Nat.le_refl _)⟩
  timeline e t he hstory := by
    cases he
    obtain ⟨hold, hmarkOld⟩ := h.timeline entry t hentry hstory
    exact ⟨Nat.le_trans hold htime, hmark ▸ hmarkOld⟩

end EntryLeads

/-! ### Where the mark is -/

/-- The mark of the weather of a world is in its ticker and in its entry, and in the log if it is
saved there or if there is no entry. -/
structure Marked (a : WorldId) (v : View) (saved : Bool) (mark : Duration) : Prop where
  fits : mark.nanos ≤ Count.greatest
  fresh : v.events = [] → mark = Duration.zero
  ticker : ∀ t, v.ticker = some t → saved = false ∧ t.weatherSyncedAt = mark
  entry : ∀ entry, v.entry = some entry → entry.weatherSyncedAt = mark
  pause : ∀ f world pending, v.errand = some (.stop a (.recording f world pending)) →
    (∃ d, f.event.Tells a (.paused d) ∧ d.weatherSyncedAt = mark) ∧
      (f.verdict = some (.ok ()) → ∀ t, Story a v.events t → t.weatherSyncedAt = mark)
  kept : saved = true ∨ v.entry = none → ∀ t, Story a v.events t → t.weatherSyncedAt = mark

theorem Step.entryLeads (hinterval : 0 < w.clock.weatherInterval.nanos)
    (hc : v.Coherent w a) (hchron : v.Chronicled a) {saved : Bool} {mark : Duration}
    (hmarked : v.Marked a saved mark) (hv : v.EntryLeads a) (h : v.Step w m a v') :
    v'.EntryLeads a := by
  cases h with
  | askKnown hworld herrand hticker | askUnknown hworld herrand hticker =>
    rw [hticker]
    exact hv.onErrand rfl
  | create herrand =>
    obtain ⟨-, -, -, hentry⟩ := hc.errand _ herrand
    exact entryLeads_of_none hentry
  | fileCreation herrand =>
    obtain ⟨-, -, -, hentry, -⟩ := hc.errand _ herrand
    exact entryLeads_of_none hentry
  | restore herrand hworld hhistory =>
    rw [hc.ticker_eq_none herrand]
    obtain ⟨t, hstory, hrestored⟩ := hchron.story_of_restore hhistory
    refine ⟨by rintro _ _ _ ⟨⟩, by rintro _ _ _ ⟨⟩, fun entry t' he hstory' => ?_⟩
    cases he
    rw [← hrestored, hstory'.unique hstory]
    exact ⟨Nat.le_refl _, Nat.le_refl _⟩
  | announce herrand hannounce =>
    obtain ⟨-, haccepted, hticker, hentry⟩ := hc.errand _ herrand
    rw [hticker]
    refine ⟨by rintro _ _ _ ⟨⟩, fun entry f _ hf => ?_, hv.timeline⟩
    obtain ⟨d, htells⟩ := SpawnOrder.tells_creation haccepted a
      ((EventLog.greatestVersion? v.events).getD 0).next m.wall true
    cases hf
    exact ⟨_, htells, trivial⟩
  | takeUp herrand hannounce hentry hnew | takeUpAnnounced herrand hfiled hentry hnew =>
    obtain ⟨delta, -, rfl⟩ := Option.map_eq_some_iff.mp hnew
    refine hv.idle hentry ?_ ?_ ?_ ?_ <;> rfl
  | enroll herrand hfiled hnew =>
    obtain ⟨delta, -, rfl⟩ := Option.map_eq_some_iff.mp hnew
    refine ⟨by rintro _ _ _ ⟨⟩, by rintro _ _ _ ⟨⟩, fun entry t he hstory => ?_⟩
    cases he
    obtain ⟨d, rfl⟩ := hchron.story_of_created herrand hfiled hstory
    exact ⟨Nat.le_refl _, Nat.le_refl _⟩
  | fileAnnouncement herrand hfiles =>
    obtain ⟨-, -, hticker, hentry, -⟩ := hc.errand _ herrand
    rw [hticker]
    exact hv.filed (filing?_of_errand hticker herrand) hfiles
      (hchron.story (hchron.entry hentry)) (tickTime?_of_none hticker).symm rfl
  | filePause herrand hfiles =>
    obtain ⟨-, hentry, hticker, -⟩ := hc.errand _ herrand
    rw [hticker]
    exact hv.filed (filing?_of_errand hticker herrand) hfiles
      (hchron.story (hchron.entry hentry)) (tickTime?_of_none hticker).symm rfl
  | giveUp herrand hjoining =>
    rw [hc.ticker_eq_none_of_ne herrand hjoining]
    exact hv.onErrand rfl
  | @askStop t herrand hticker hstop =>
    have htick := tickTime?_of_ticker hticker
    have hfiling := filing?_of_ticker hticker
    exact ⟨fun entry tickTime he ht => hv.tick entry tickTime he (htick.trans ht),
      fun entry f he hf => hv.filing entry f he (hfiling.trans hf), hv.timeline⟩
  | pause herrand hticker hphase hentry => exact hv.paused hentry _ _
  | breakDown herrand hticker hphase => exact hv.onErrand rfl
  | pauseBroken herrand hentry => exact hv.paused hentry _ _
  | goes hticker hentry hgoes =>
    have hmark := (hmarked.entry _ hentry).trans (hmarked.ticker _ hticker).2.symm
    exact hv.goes hc hinterval hticker hentry hgoes hmark
  | fileTick hticker hphase hfiles | fileResumption hticker hphase hfiles =>
    obtain ⟨-, hentry, -⟩ := hc.ticker _ hticker
    refine hv.filed ((filing?_of_ticker hticker).trans ?_) hfiles
      (hchron.story (hchron.entry hentry)) ((tickTime?_of_ticker hticker).trans ?_).symm rfl
    · rw [Ticker.filing?, hphase]
    · rw [hphase]
      rfl

/-! ### Calls -/

/-- What is noted of a call that the ticker of a world makes. -/
def callOf (w : Wiring) (v : View) (asked : Utc × Season) : WeatherCall where
  wiring := w
  gameTime := v.tickTime?.getD Duration.zero
  delta := v.tickDelta
  synthetic := asked.1
  season := asked.2

/-- The calls about a world after one more step of its process, the latest one first. -/
def noteCall (w : Wiring) (v v' : View) (calls : List WeatherCall) : List WeatherCall :=
  (v.asks v').toList.map (v.callOf w) ++ calls

variable {calls : List WeatherCall}

theorem noteCall_of_none (h : v.asks v' = none) : v.noteCall w v' calls = calls := by
  rw [noteCall, h]
  rfl

theorem noteCall_of_calls {t t' : Ticker} {entry entry' : World} {gameTime : Duration}
    (hticker : v.ticker = some t) (hticker' : v'.ticker = some t')
    (hcalls : t.Calls w entry t' entry' gameTime) :
    v.noteCall w v' calls = ⟨w, gameTime, t.delta, Utc.synthetic w.clock.epoch gameTime,
      w.calendar.season gameTime⟩ :: calls := by
  have hbefore := (tickTime?_of_ticker hticker).trans hcalls.before
  rw [noteCall, asks_eq hticker hticker', hcalls.asks, Option.toList_some, List.map_singleton,
    callOf, hbefore, tickDelta_of_ticker hticker]
  rfl

/-- A step makes no call, or it is the step of a ticker that makes one. -/
theorem Step.call_cases (hc : v.Coherent w a) (h : v.Step w m a v') : v.asks v' = none ∨
    ∃ t t' entry entry' gameTime, v.ticker = some t ∧ v.entry = some entry ∧
      t.Goes w m entry t' entry' ∧ t.Calls w entry t' entry' gameTime ∧
      v' = { v with ticker := some t', entry := some entry' } := by
  cases h with
  | goes hticker hentry hgoes =>
    cases hgoes.paces with
    | calls hcalls => exact .inr ⟨_, _, _, _, _, hticker, hentry, hgoes, hcalls, rfl⟩
    | begins hpasses | waits hpasses | spares hpasses | breaks hpasses =>
      exact .inl ((asks_eq hticker rfl).trans hpasses.asks)
  | @askStop t herrand hticker =>
    refine .inl ((asks_eq hticker rfl).trans ?_)
    exact Phase.asks_self t.phase
  | fileTick hticker | fileResumption hticker =>
    exact .inl ((asks_eq hticker rfl).trans (Phase.asks_of_after _ rfl))
  | askKnown hworld herrand hticker | askUnknown hworld herrand hticker =>
    exact .inl (asks_of_none (.inl hticker))
  | create herrand | restore herrand | announce herrand | takeUp herrand | takeUpAnnounced herrand
  | enroll herrand | fileCreation herrand | fileAnnouncement herrand =>
    exact .inl (asks_of_none (.inl (hc.ticker_eq_none herrand)))
  | filePause herrand =>
    exact .inl (asks_of_none (.inl (hc.ticker_eq_none_of_ne herrand (by rintro ⟨⟩))))
  | giveUp herrand hjoining =>
    exact .inl (asks_of_none (.inl (hc.ticker_eq_none_of_ne herrand hjoining)))
  | pause | breakDown | pauseBroken => exact .inl (asks_of_none (.inr rfl))

/-! ### Keeping the mark

A ticker starts with the mark of the entry, and moves both at once when it makes a call. A pause
takes the mark of the entry on its way to the log, and a restored entry has it from there. -/

namespace Marked

variable {saved saved' : Bool} {mark mark' : Duration}

theorem onErrand (hv : v.Marked a saved mark) (hsaved : saved' = true → saved = true)
    {errand : Option Errand}
    (herrand : ∀ f world pending, errand ≠ some (.stop a (.recording f world pending))) :
    (View.mk v.entry none errand v.events).Marked a saved' mark where
  fits := hv.fits
  fresh := hv.fresh
  ticker _ ht := nomatch ht
  entry := hv.entry
  pause f world pending he := absurd he (herrand f world pending)
  kept h := hv.kept (h.imp_left hsaved)

theorem launched (hv : v.Marked a saved mark) {entry entry' : World}
    (hentry : v.entry = some entry) (hmark : entry'.weatherSyncedAt = entry.weatherSyncedAt)
    {t : Ticker} (ht : t.weatherSyncedAt = entry.weatherSyncedAt) :
    (View.mk (some entry') (some t) none v.events).Marked a false mark where
  fits := hv.fits
  fresh := hv.fresh
  ticker t' ht' := by
    cases ht'
    exact ⟨rfl, ht.trans (hv.entry entry hentry)⟩
  entry e he := by
    cases he
    exact hmark.trans (hv.entry entry hentry)
  pause _ _ _ he := nomatch he
  kept h := by obtain h | h := h <;> cases h

theorem paused (hv : v.Marked a saved mark) (hsaved : saved' = true → saved = true) {entry : World}
    (hentry : v.entry = some entry) (version pending : Count) :
    (v.paused w m a entry version pending).Marked a saved' mark where
  fits := hv.fits
  fresh := hv.fresh
  ticker _ ht := nomatch ht
  entry e he := by
    cases he
    exact hv.entry entry hentry
  pause f world pending' he := by
    obtain ⟨-, hstage⟩ := Errand.stop.inj (Option.some.inj he)
    obtain ⟨rfl, rfl, rfl⟩ := StopStage.recording.inj hstage
    refine ⟨⟨_, World.tells_pauseEvent _ a _ _ _, ?_⟩, by rintro ⟨⟩⟩
    have hmark := hv.entry entry hentry
    refine Eq.trans (Duration.ofNanoCount_toNanoCount ?_) hmark
    change entry.weatherSyncedAt.nanos ≤ _
    rw [hmark]
    exact hv.fits
  kept h := hv.kept (h.imp hsaved fun hnone => nomatch hnone)

/-- The log has seen the append under way. As it does not pass the entry, it keeps the mark that it
has. -/
theorem filed (hv : v.Marked a saved mark) (hsaved : saved' = true → saved = true)
    (hentry : v.entry ≠ none) {f f' : Filing} {events' : List Event}
    (hfiles : f.Files v.events f' events') (hstory : ∃ t, Story a v.events t) {d : Details}
    (htells : f.event.Tells a d) {ticker : Option Ticker} {errand : Option Errand}
    (hleads : (View.mk v.entry ticker errand events').EntryLeads a)
    (hticker : ∀ t, ticker = some t → saved' = false ∧ t.weatherSyncedAt = mark)
    (hpause : ∀ g world pending, errand = some (.stop a (.recording g world pending)) →
      (∃ d, g.event.Tells a (.paused d) ∧ d.weatherSyncedAt = mark) ∧
        (g.verdict = some (.ok ()) → ∀ t, Story a events' t → t.weatherSyncedAt = mark)) :
    (View.mk v.entry ticker errand events').Marked a saved' mark where
  fits := hv.fits
  fresh hempty := absurd hempty (hfiles.ne_nil (hstory.elim fun _ ht => ht.ne_nil))
  ticker := hticker
  entry := hv.entry
  pause := hpause
  kept h t ht := by
    have hkept := hv.kept (h.imp_left hsaved)
    obtain ⟨entry, hget⟩ := Option.ne_none_iff_exists'.mp hentry
    have hle := (hleads.timeline entry t hget ht).mark
    rw [hv.entry entry hget] at hle
    obtain ⟨hold, -⟩ | ⟨hold, -⟩ | ⟨t₀, hold, rfl⟩ := hfiles.story_cases hstory htells ht
    · exact hkept t hold
    · exact hkept t hold
    · have hge := t₀.weatherSyncedAt_le_after f.event d
      rw [hkept t₀ hold] at hge
      exact Duration.ext (Nat.le_antisymm hle hge)

/-- Once a pause is stored the log has the mark. -/
theorem stored (hv : v.Marked a saved mark) {f f' : Filing} {events' : List Event} {world : World}
    {pending : Count} (herrand : v.errand = some (.stop a (.recording f world pending)))
    (hfiles : f.Files v.events f' events') (hstory : ∃ t, Story a v.events t)
    (hverdict : f'.verdict = some (.ok ())) {entry : World} (hentry : v.entry = some entry)
    (hle : ∀ t, Story a events' t → t.weatherSyncedAt ≤ entry.weatherSyncedAt) {t : Timeline}
    (ht : Story a events' t) : t.weatherSyncedAt = mark := by
  obtain ⟨⟨d, htells, hmark⟩, hkept⟩ := hv.pause f world pending herrand
  cases hfiles with
  | again => exact hkept hverdict t ht
  | refused => cases hverdict
  | stored =>
    obtain ⟨t₀, hold⟩ := hstory
    have hle := hle t ht
    rw [hv.entry entry hentry] at hle
    rw [hold.cons_eq htells ht] at hle ⊢
    have hge : d.weatherSyncedAt ≤ (t₀.after f.event (.paused d)).weatherSyncedAt := by
      change d.weatherSyncedAt.nanos ≤ (t₀.weatherSyncedAt.max d.weatherSyncedAt).nanos
      rw [Duration.nanos_max]
      exact Nat.le_max_right _ _
    rw [hmark] at hge
    exact Duration.ext (Nat.le_antisymm hle hge)

theorem goes (hc : v.Coherent w a) (hne : v.events ≠ []) {t t' : Ticker} {entry' : World}
    (hticker : v.ticker = some t) (hfits : mark'.nanos ≤ Count.greatest)
    (hmark : t'.weatherSyncedAt = mark') (hentry : entry'.weatherSyncedAt = mark') :
    (View.mk (some entry') (some t') v.errand v.events).Marked a false mark' where
  fits := hfits
  fresh hempty := absurd hempty hne
  ticker t'' ht := by
    cases ht
    exact ⟨rfl, hmark⟩
  entry e he := by
    cases he
    exact hentry
  pause f world pending he := nomatch hc.errand_eq_joining hticker he
  kept h := by obtain h | h := h <;> cases h

end Marked

theorem marked_enrolled (hc : v.Coherent w a) (hchron : v.Chronicled a) {saved : Bool}
    {mark : Duration} (hv : v.Marked a saved mark) {order : SpawnOrder} {filing : Filing}
    {t : Ticker} (herrand : v.errand = some (.spawn order (.creating filing)))
    (hfiled : filing.verdict = some (.ok ()))
    (hnew : Ticker.new? w.clock a order.dilation 1 Duration.zero none = some t) :
    (View.mk (some (World.starting a order.name order.dilation m.wall)) (some t) none
      v.events).Marked a false mark := by
  obtain ⟨-, -, -, hentry, -⟩ := hc.errand _ herrand
  obtain ⟨now, -, -, hstored⟩ := hchron.creation _ _ herrand
  obtain ⟨delta, -, rfl⟩ := Option.map_eq_some_iff.mp hnew
  -- Its creation is all that the log has, and that tells of no call.
  obtain ⟨t, hstory⟩ := hchron.story (by simp [hstored hfiled])
  have hzero : mark = Duration.zero := by
    rw [← hv.kept (.inr hentry) t hstory]
    obtain ⟨d, rfl⟩ := hchron.story_of_created herrand hfiled hstory
    rfl
  subst hzero
  refine ⟨hv.fits, hv.fresh, ?_, ?_, by rintro _ _ _ ⟨⟩, ?_⟩
  · rintro t' ⟨⟩
    exact ⟨rfl, rfl⟩
  · rintro entry ⟨⟩
    rfl
  · intro h
    obtain h | h := h <;> cases h

theorem marked_founded (hc : v.Coherent w a) (hchron : v.Chronicled a) {saved saved' : Bool}
    {mark : Duration} (hv : v.Marked a saved mark) (hsaved : saved' = true → saved = true)
    {order : SpawnOrder} {filing filing' : Filing} {events' : List Event}
    (herrand : v.errand = some (.spawn order (.creating filing)))
    (hfiles : filing.Files v.events filing' events') :
    (View.mk v.entry v.ticker (some (.spawn order (.creating filing'))) events').Marked a saved'
      mark := by
  obtain ⟨-, -, hticker, hentry, -⟩ := hc.errand _ herrand
  obtain ⟨now, -, hempty, -⟩ := hchron.creation _ _ herrand
  rw [hticker]
  obtain hsame | ⟨hcons, hverdict, -⟩ := hfiles.events_eq
  · rw [hsame]
    exact hv.onErrand hsaved (by rintro _ _ _ ⟨⟩)
  · have hzero := hv.fresh (hempty hverdict)
    rw [hcons, hempty hverdict]
    refine ⟨hv.fits, by rintro ⟨⟩, by rintro _ ⟨⟩, hv.entry, by rintro _ _ _ ⟨⟩, ?_⟩
    intro _ t hstory
    obtain ⟨d, rfl⟩ := hstory.of_single
    exact hzero.symm

/-- A step keeps the mark, or moves it to the game time of the call that it makes. What was saved in
the log remains so until a ticker starts. -/
theorem Step.marked (hinterval : 0 < w.clock.weatherInterval.nanos)
    (hc : v.Coherent w a) (hchron : v.Chronicled a) (hleads : v.EntryLeads a)
    {saved saved' : Bool} (hv : v.Marked a saved (WeatherCall.last calls))
    (h : v.Step w m a v') (hsaved : saved' = true → saved = true)
    (hrunning : ∀ t, v'.ticker = some t → saved' = false)
    (hfits : ∀ entry, v'.entry = some entry → entry.gameTime.nanos ≤ Count.greatest) :
    v'.Marked a saved' (WeatherCall.last (v.noteCall w v' calls)) := by
  have hleads' := h.entryLeads hinterval hc hchron hv hleads
  obtain hasks | ⟨t, t', entry, entry', gameTime, hticker, hentry, hgoes, hcalls, rfl⟩ :=
    h.call_cases hc
  · rw [noteCall_of_none hasks]
    cases h with
    | askKnown hworld herrand hticker | askUnknown hworld herrand hticker =>
      rw [hticker]
      exact hv.onErrand hsaved (by rintro _ _ _ ⟨⟩)
    | create herrand | announce herrand =>
      rw [hc.ticker_eq_none herrand]
      exact hv.onErrand hsaved (by rintro _ _ _ ⟨⟩)
    | restore herrand hworld hhistory =>
      obtain ⟨-, -, hticker, hentry⟩ := hc.errand _ herrand
      obtain ⟨t, hstory, hrestored⟩ := hchron.story_of_restore hhistory
      have hkept := hv.kept (.inr hentry)
      rw [hticker]
      refine ⟨hv.fits, hv.fresh, by rintro _ ⟨⟩, ?_, by rintro _ _ _ ⟨⟩, fun _ => hkept⟩
      intro entry he
      cases he
      rw [← hrestored]
      exact hkept t hstory
    | takeUp herrand hannounce hentry hnew | takeUpAnnounced herrand hfiled hentry hnew =>
      rw [hrunning _ rfl]
      obtain ⟨delta, -, rfl⟩ := Option.map_eq_some_iff.mp hnew
      refine hv.launched hentry ?_ ?_ <;> rfl
    | enroll herrand hfiled hnew =>
      rw [hrunning _ rfl]
      exact marked_enrolled hc hchron hv herrand hfiled hnew
    | fileCreation herrand hfiles => exact marked_founded hc hchron hv hsaved herrand hfiles
    | fileAnnouncement herrand hfiles =>
      obtain ⟨-, -, hticker, hentry, -⟩ := hc.errand _ herrand
      obtain ⟨d, htells⟩ := (hchron.errand _ _ herrand rfl).2.tells
      rw [hticker] at hleads' ⊢
      exact hv.filed hsaved hentry hfiles (hchron.story (hchron.entry hentry)) htells hleads'
        (by rintro _ ⟨⟩) (by rintro _ _ _ ⟨⟩)
    | @filePause world pending f f' events' herrand hfiles =>
      obtain ⟨-, hentry, hticker, -⟩ := hc.errand _ herrand
      obtain ⟨⟨d, htells, hmark⟩, -⟩ := hv.pause f world pending herrand
      have hstory := hchron.story (hchron.entry hentry)
      rw [hticker] at hleads' ⊢
      refine hv.filed hsaved hentry hfiles hstory htells hleads' (by rintro _ ⟨⟩) ?_
      intro g world' pending' he
      obtain ⟨-, hstage⟩ := Errand.stop.inj (Option.some.inj he)
      obtain ⟨rfl, rfl, rfl⟩ := StopStage.recording.inj hstage
      refine ⟨⟨d, by rwa [hfiles.event_eq], hmark⟩, fun hverdict t ht => ?_⟩
      obtain ⟨entry, hget⟩ := Option.ne_none_iff_exists'.mp hentry
      exact hv.stored herrand hfiles hstory hverdict hget
        (fun t ht => (hleads'.timeline entry t hget ht).mark) ht
    | giveUp herrand hjoining =>
      rw [hc.ticker_eq_none_of_ne herrand hjoining]
      exact hv.onErrand hsaved (by rintro _ _ _ ⟨⟩)
    | @askStop t herrand hticker hstop =>
      obtain ⟨-, hentry, -⟩ := hc.ticker t hticker
      refine ⟨hv.fits, hv.fresh, ?_, hv.entry, by rintro _ _ _ ⟨⟩, ?_⟩
      · intro t' ht
        cases ht
        exact ⟨hrunning _ rfl, (hv.ticker t hticker).2⟩
      · exact fun h => hv.kept (h.imp_left hsaved)
    | breakDown herrand hticker hphase => exact hv.onErrand hsaved (by rintro _ _ _ ⟨⟩)
    | pause herrand hticker hphase hentry => exact hv.paused hsaved hentry _ _
    | pauseBroken herrand hentry => exact hv.paused hsaved hentry _ _
    | goes hticker hentry hgoes =>
      have hpasses := hgoes.paces.passes ((asks_eq hticker rfl).symm.trans hasks)
      rw [hrunning _ rfl]
      exact .goes hc (hchron.entry (by simp [hentry])) hticker hv.fits
        (hpasses.mark.trans (hv.ticker _ hticker).2)
        (hpasses.entryMark.trans (hv.entry _ hentry))
    | fileTick hticker hphase hfiles | fileResumption hticker hphase hfiles =>
      obtain ⟨-, hentry, -⟩ := hc.ticker _ hticker
      obtain ⟨d, htells⟩ :=
        ((hchron.ticker _ hticker).2 _ (by rw [Ticker.filing?, hphase])).2.tells
      refine hv.filed hsaved hentry hfiles (hchron.story (hchron.entry hentry)) htells hleads' ?_
        fun f world pending he => ?_
      · intro t' ht
        cases ht
        exact ⟨hrunning _ rfl, (hv.ticker _ hticker).2⟩
      · cases hc.errand_eq_joining hticker he
  · have htick := hleads.tick entry gameTime hentry
      ((tickTime?_of_ticker hticker).trans hcalls.before)
    have hentryTime := hfits entry' rfl
    rw [hcalls.entry] at hentryTime
    rw [noteCall_of_calls hticker rfl hcalls, hrunning t' rfl]
    exact .goes hc (hchron.entry (by simp [hentry])) hticker (Nat.le_trans htick hentryTime)
      hcalls.mark (by rw [hcalls.entry]; rfl)

/-! ### Keeping the pace -/

/-- The game time of a world has not gone beyond the last call by as much as an interval, unless a
tick is under way that may be about to make a call. -/
structure Paced (interval : Duration) (a : WorldId) (v : View) (last : Duration) : Prop where
  rest : ∀ entry, v.entry = some entry → v.tickTime? = none →
    entry.gameTime.nanos < last.nanos + interval.nanos
  ticking : ∀ entry tickTime, v.entry = some entry → v.tickTime? = some tickTime →
    tickTime = entry.gameTime ∧
      tickTime.nanos < last.nanos + interval.nanos + v.tickDelta.nanos
  entryless : v.entry = none → ∀ t, Story a v.events t →
    t.gameTime.nanos < last.nanos + interval.nanos

namespace Paced

variable {interval last : Duration}

/-- The clock stands still, and so does the tick that is under way. -/
theorem still (h : v.Paced interval a last) {entry entry' : World} (hentry : v.entry = some entry)
    (hentry' : v'.entry = some entry') (htime : entry'.gameTime = entry.gameTime)
    (htick : v'.tickTime? = v.tickTime?)
    (hdelta : v'.tickTime? = none ∨ v'.tickDelta = v.tickDelta) :
    v'.Paced interval a last where
  rest e he hnone := by
    cases hentry'.symm.trans he
    rw [htime]
    exact h.rest entry hentry (htick.symm.trans hnone)
  ticking e tickTime he hsome := by
    cases hentry'.symm.trans he
    obtain hnone | hdelta := hdelta
    · cases hnone.symm.trans hsome
    · rw [htime, hdelta]
      exact h.ticking entry tickTime hentry (htick.symm.trans hsome)
  entryless hnone := nomatch hentry'.symm.trans hnone

theorem onErrand (h : v.Paced interval a last) (htick : v.tickTime? = none)
    {errand : Option Errand} : (View.mk v.entry none errand v.events).Paced interval a last where
  rest entry he _ := h.rest entry he htick
  ticking _ _ _ hsome := nomatch hsome
  entryless := h.entryless

/-- A step of a ticker that makes no call. A tick adds its delta to what was less than an interval;
one that is early for the weather leaves it less than that. -/
theorem goes (h : v.Paced w.clock.weatherInterval a last) (hasks : w.asksWeather = true)
    {t t' : Ticker} {entry entry' : World} (hticker : v.ticker = some t)
    (hentry : v.entry = some entry) (hgoes : t.Goes w m entry t' entry')
    (hquiet : t.phase.asks t'.phase = none) (hmark : t.weatherSyncedAt = last)
    (hv' : v' = { v with ticker := some t', entry := some entry' })
    (hunbroken : (v.tickTime?.isSome && v'.isBroken) = false) :
    v'.Paced w.clock.weatherInterval a last := by
  have hticker' : v'.ticker = some t' := by rw [hv']
  have hentry' : v'.entry = some entry' := by rw [hv']
  have htick := tickTime?_of_ticker hticker
  have htick' := tickTime?_of_ticker hticker'
  have hdelta : v'.tickDelta = t.delta := (tickDelta_of_ticker hticker').trans hgoes.delta_eq
  cases hgoes.paces with
  | begins hpasses hbefore hafter hnow =>
    have hrest := h.rest entry hentry (htick.trans hbefore)
    refine ⟨fun e _ hnone => ?_, fun e tickTime he hsome => ?_, fun hnone => ?_⟩
    · cases (htick'.trans hafter).symm.trans hnone
    · cases hentry'.symm.trans he
      cases (htick'.trans hafter).symm.trans hsome
      rw [hdelta]
      refine ⟨hnow.symm, ?_⟩
      rw [Duration.nanos_add]
      omega
    · cases hentry'.symm.trans hnone
  | waits hpasses hsame hnow =>
    exact h.still hentry hentry' hnow (htick'.trans (hsame.trans htick.symm))
      (.inr (hdelta.trans (tickDelta_of_ticker hticker).symm))
  | @spares gameTime hpasses hbefore hafter hearly hnow =>
    obtain ⟨hsame, -⟩ := h.ticking entry gameTime hentry (htick.trans hbefore)
    refine ⟨fun e he _ => ?_, fun e tickTime _ hsome => ?_, fun hnone => ?_⟩
    · cases hentry'.symm.trans he
      obtain hearly | hnever := hearly
      · have hless : (gameTime.sub last).nanos < w.clock.weatherInterval.nanos := hmark ▸ hearly
        rw [Duration.nanos_sub] at hless
        rw [hnow, ← hsame]
        omega
      · cases hasks.symm.trans hnever
    · cases (htick'.trans hafter).symm.trans hsome
    · cases hentry'.symm.trans hnone
  | calls hcalls => cases hquiet.symm.trans hcalls.asks
  | breaks hpasses hafter hbroken hnow =>
    have hbroken' : v'.isBroken = true := by rw [isBroken, hticker', Option.any_some, hbroken]
    rw [hbroken', Bool.and_true, Option.isSome_eq_false_iff, Option.isNone_iff_eq_none] at hunbroken
    exact h.still hentry hentry' hnow ((htick'.trans hafter).trans hunbroken.symm)
      (.inl (htick'.trans hafter))

end Paced

/-- A step keeps the game time of a world in the pace of its calls, if it breaks no ticker down in
the middle of a tick. -/
theorem Step.paced (hasksWeather : w.asksWeather = true)
    (hinterval : 0 < w.clock.weatherInterval.nanos) (hc : v.Coherent w a) (hchron : v.Chronicled a)
    {saved : Bool} (hmarked : v.Marked a saved (WeatherCall.last calls))
    (hv : v.Paced w.clock.weatherInterval a (WeatherCall.last calls)) (h : v.Step w m a v')
    (hunbroken : (v.tickTime?.isSome && v'.isBroken) = false) :
    v'.Paced w.clock.weatherInterval a (WeatherCall.last (v.noteCall w v' calls)) := by
  obtain hasks | ⟨t, t', entry, entry', gameTime, hticker, hentry, hgoes, hcalls, rfl⟩ :=
    h.call_cases hc
  · rw [noteCall_of_none hasks]
    have hlater {n : Nat} : 0 < n + w.clock.weatherInterval.nanos := Nat.add_pos_right n hinterval
    cases h with
    | askKnown hworld herrand hticker | askUnknown hworld herrand hticker =>
      rw [hticker]
      exact hv.onErrand (tickTime?_of_none hticker)
    | create herrand | announce herrand =>
      have hticker := hc.ticker_eq_none herrand
      rw [hticker]
      exact hv.onErrand (tickTime?_of_none hticker)
    | giveUp herrand hjoining =>
      have hticker := hc.ticker_eq_none_of_ne herrand hjoining
      rw [hticker]
      exact hv.onErrand (tickTime?_of_none hticker)
    | breakDown herrand hticker hphase =>
      exact hv.onErrand ((tickTime?_of_ticker hticker).trans (by rw [hphase]; rfl))
    | restore herrand hworld hhistory =>
      obtain ⟨-, -, hticker, hentry⟩ := hc.errand _ herrand
      obtain ⟨t, hstory, hrestored⟩ := hchron.story_of_restore hhistory
      rw [hticker]
      refine ⟨fun entry he _ => ?_, by rintro _ _ _ ⟨⟩, by rintro ⟨⟩⟩
      cases he
      rw [← hrestored]
      exact hv.entryless hentry t hstory
    | takeUp herrand hannounce hentry hnew | takeUpAnnounced herrand hfiled hentry hnew =>
      have hticker := hc.ticker_eq_none herrand
      obtain ⟨delta, -, rfl⟩ := Option.map_eq_some_iff.mp hnew
      exact hv.still hentry rfl rfl (tickTime?_of_none hticker).symm (.inl rfl)
    | enroll herrand hfiled hnew =>
      obtain ⟨delta, -, rfl⟩ := Option.map_eq_some_iff.mp hnew
      refine ⟨?_, by rintro _ _ _ ⟨⟩, by rintro ⟨⟩⟩
      rintro entry ⟨⟩ -
      exact hlater
    | fileCreation herrand hfiles =>
      obtain ⟨-, -, hticker, hentry, -⟩ := hc.errand _ herrand
      rw [hticker]
      refine ⟨by simp [hentry], by rintro _ _ _ ⟨⟩, fun _ t hstory => ?_⟩
      obtain hold | ⟨d, rfl⟩ := hchron.story_of_creation herrand hfiles hstory
      · exact hv.entryless hentry t hold
      · exact hlater
    | fileAnnouncement herrand hfiles =>
      obtain ⟨-, -, hticker, hentry, -⟩ := hc.errand _ herrand
      obtain ⟨entry, hget⟩ := Option.ne_none_iff_exists'.mp hentry
      exact hv.still hget hget rfl rfl (.inl (tickTime?_of_none hticker))
    | filePause herrand hfiles =>
      obtain ⟨-, hentry, hticker, -⟩ := hc.errand _ herrand
      obtain ⟨entry, hget⟩ := Option.ne_none_iff_exists'.mp hentry
      exact hv.still hget hget rfl rfl (.inl (tickTime?_of_none hticker))
    | pause herrand hticker hphase hentry =>
      have htick := tickTime?_of_ticker hticker
      rw [hphase] at htick
      exact hv.still hentry rfl rfl htick.symm (.inl rfl)
    | pauseBroken herrand hentry =>
      have hticker := hc.ticker_eq_none_of_ne herrand (by rintro ⟨⟩)
      exact hv.still hentry rfl rfl (tickTime?_of_none hticker).symm (.inl rfl)
    | @askStop t herrand hticker hstop =>
      obtain ⟨-, hentry, -⟩ := hc.ticker t hticker
      obtain ⟨entry, hget⟩ := Option.ne_none_iff_exists'.mp hentry
      exact hv.still hget hget rfl (tickTime?_of_ticker hticker).symm
        (.inr (tickDelta_of_ticker hticker).symm)
    | fileTick hticker hphase hfiles | fileResumption hticker hphase hfiles =>
      obtain ⟨-, hentry, -⟩ := hc.ticker _ hticker
      obtain ⟨entry, hget⟩ := Option.ne_none_iff_exists'.mp hentry
      have htick := tickTime?_of_ticker hticker
      rw [hphase] at htick
      exact hv.still hget hget rfl htick.symm (.inr (tickDelta_of_ticker hticker).symm)
    | goes hticker hentry hgoes =>
      exact hv.goes hasksWeather hticker hentry hgoes ((asks_eq hticker rfl).symm.trans hasks)
        (hmarked.ticker _ hticker).2 rfl hunbroken
  · obtain ⟨hsame, -⟩ := hv.ticking entry gameTime hentry
      ((tickTime?_of_ticker hticker).trans hcalls.before)
    rw [noteCall_of_calls hticker rfl hcalls]
    refine ⟨fun e he _ => ?_, fun e tickTime _ hsome => ?_, by rintro ⟨⟩⟩
    · cases he
      rw [hcalls.entry]
      change entry.gameTime.nanos < gameTime.nanos + _
      rw [hsame]
      exact Nat.lt_add_of_pos_right hinterval
    · cases ((tickTime?_of_ticker rfl).trans hcalls.after).symm.trans hsome

end View

end WorldClock
