import WorldClock.Proofs.Agreement
import WorldClock.Proofs.Manager.Fleet
import WorldClock.Proofs.SyntheticTimes
import WorldClock.Proofs.WeatherSpacing

/-!
# The order of weather calls

A weather call asks about the time that stands for the game time of its tick. These times keep the
order of game time, so what could put calls out of order is a clock that is set back. Within a
process no clock is. A death sets the clock back to what the log tells of it, which is no less than
the game time of every call so far as long as no append is lost and game time can be told in 64
bits: a ticker asks for the weather only when the append of its tick is over. Where ticks are lost
the calls after a restart are about times that were asked about before.
-/

namespace WorldClock

/-! ### The clock and the last call -/

namespace WeatherCall

/-- The later calls, which come first, do not ask about an earlier game time. -/
def InOrder (calls : List WeatherCall) : Prop :=
  calls.Pairwise fun later earlier => earlier.gameTime ≤ later.gameTime

theorem InOrder.cons {call : WeatherCall} {calls : List WeatherCall} (h : InOrder calls)
    (hlast : last calls ≤ call.gameTime) : InOrder (call :: calls) := by
  refine List.pairwise_cons.mpr ⟨fun earlier hearlier => ?_, h⟩
  cases calls with
  | nil => cases hearlier
  | cons latest rest =>
    obtain rfl | hrest := List.mem_cons.mp hearlier
    · exact hlast
    · exact Nat.le_trans ((List.pairwise_cons.mp h).1 earlier hrest) hlast

end WeatherCall

namespace View

variable {w : Wiring} {m : Moment} {a : WorldId} {v v' : View} {calls : List WeatherCall}

/-- The clock of a world has come to the game time of the last call, and so has the tick that is
under way, which has not passed the clock. -/
structure HasPassed (last : Duration) (v : View) : Prop where
  entry : ∀ entry, v.entry = some entry → last ≤ entry.gameTime
  tick : ∀ entry tickTime, v.entry = some entry → v.tickTime? = some tickTime →
    last ≤ tickTime ∧ tickTime ≤ entry.gameTime

theorem Step.entry_ne_none (h : v.Step w m a v') (hentry : v.entry ≠ none) : v'.entry ≠ none := by
  cases h with
  | restore | takeUp | takeUpAnnounced | enroll | pause | pauseBroken | goes =>
    exact Option.some_ne_none _
  | _ => exact hentry

/-- A step founds an entry, or it leaves one whose clock does not go back; a tick that begins is as
far as the clock. -/
theorem Step.clock (h : v.Step w m a v') (hc : v.Coherent w a) {entry' : World}
    (hentry' : v'.entry = some entry') :
    (v.entry = none ∧ v'.tickTime? = none) ∨
      ∃ entry, v.entry = some entry ∧ entry.gameTime ≤ entry'.gameTime ∧
        ∀ tickTime, v'.tickTime? = some tickTime →
          v.tickTime? = some tickTime ∨ tickTime = entry'.gameTime := by
  have hstill (hentry : v'.entry = v.entry) (htick : v'.tickTime? = v.tickTime?) :
      ∃ entry, v.entry = some entry ∧ entry.gameTime ≤ entry'.gameTime ∧
        ∀ tickTime, v'.tickTime? = some tickTime →
          v.tickTime? = some tickTime ∨ tickTime = entry'.gameTime :=
    ⟨entry', hentry.symm.trans hentry', Nat.le_refl _, fun _ ht => .inl (htick.symm.trans ht)⟩
  cases h with
  | askKnown | askUnknown | create | announce | fileCreation | fileAnnouncement | filePause
    | giveUp => exact .inr (hstill rfl rfl)
  | restore herrand =>
    obtain ⟨-, -, hticker, hnone⟩ := hc.errand _ herrand
    exact .inl ⟨hnone, tickTime?_of_none hticker⟩
  | takeUp herrand hannounce hentry hnew | takeUpAnnounced herrand hfiled hentry hnew =>
    obtain ⟨delta, -, rfl⟩ := Option.map_eq_some_iff.mp hnew
    cases hentry'
    exact .inr ⟨_, hentry, Nat.le_refl _, by rintro _ ⟨⟩⟩
  | enroll herrand hfiled hnew =>
    obtain ⟨-, -, -, hnone, -⟩ := hc.errand _ herrand
    obtain ⟨delta, -, rfl⟩ := Option.map_eq_some_iff.mp hnew
    exact .inl ⟨hnone, rfl⟩
  | askStop herrand hticker => exact .inr (hstill rfl (tickTime?_of_ticker hticker).symm)
  | pause herrand hticker hphase hentry | pauseBroken herrand hentry =>
    cases hentry'
    exact .inr ⟨_, hentry, Nat.le_refl _, by rintro _ ⟨⟩⟩
  | breakDown => exact .inr ⟨entry', hentry', Nat.le_refl _, by rintro _ ⟨⟩⟩
  | fileTick hticker hphase | fileResumption hticker hphase =>
    refine .inr (hstill rfl ?_)
    rw [tickTime?_of_ticker hticker, hphase]
    rfl
  | goes hticker hentry hgoes =>
    cases hentry'
    obtain ⟨hforward, hticks⟩ := hgoes.paces.clock
    exact .inr ⟨_, hentry, hforward, by rwa [tickTime?_of_ticker hticker]⟩

/-- A step keeps the clock past the last call, and makes no call that is behind it, if it founds no
entry that is. -/
theorem Step.hasPassed (h : v.Step w m a v') (hc : v.Coherent w a)
    (hv : v.HasPassed (WeatherCall.last calls)) (hcalls : WeatherCall.InOrder calls)
    (hfound : ∀ entry, v.entry = none → v'.entry = some entry →
      WeatherCall.last calls ≤ entry.gameTime) :
    v'.HasPassed (WeatherCall.last (v.noteCall w v' calls)) ∧
      WeatherCall.InOrder (v.noteCall w v' calls) := by
  obtain hasks | ⟨t, t', entry, entry', gameTime, hticker, hentry, -, hcall, rfl⟩ := h.call_cases hc
  · rw [noteCall_of_none hasks]
    refine ⟨⟨fun entry' hentry' => ?_, fun entry' tickTime hentry' htick => ?_⟩, hcalls⟩
    · obtain ⟨hnone, -⟩ | ⟨entry, hentry, hforward, -⟩ := h.clock hc hentry'
      · exact hfound entry' hnone hentry'
      · exact Nat.le_trans (hv.entry entry hentry) hforward
    · obtain ⟨-, hidle⟩ | ⟨entry, hentry, hforward, hticks⟩ := h.clock hc hentry'
      · cases hidle.symm.trans htick
      · obtain hold | rfl := hticks tickTime htick
        · obtain ⟨hpassed, hbehind⟩ := hv.tick entry tickTime hentry hold
          exact ⟨hpassed, Nat.le_trans hbehind hforward⟩
        · exact ⟨Nat.le_trans (hv.entry entry hentry) hforward, Nat.le_refl _⟩
  · obtain ⟨hpassed, hbehind⟩ := hv.tick entry gameTime hentry
      ((tickTime?_of_ticker hticker).trans hcall.before)
    rw [noteCall_of_calls hticker rfl hcall]
    refine ⟨⟨fun e he => ?_, fun e tickTime _ htick => ?_⟩, hcalls.cons hpassed⟩
    · cases he
      rw [hcall.entry]
      exact hbehind
    · cases hcall.after.symm.trans htick

/-! ### What the log knows -/

/-- A timeline of a history that the log has just been given an event for has not gone back. -/
theorem Step.le_story (h : v.Step w m a v') (hc : v.Coherent w a) (hchron : v.Chronicled a)
    {last : Duration} (hfresh : v.events = [] → last = .zero)
    (hold : ∀ t, Story a v.events t → last ≤ t.gameTime) {t : Timeline}
    (ht : Story a v'.events t) : last ≤ t.gameTime := by
  by_cases hempty : v.events = []
  · rw [hfresh hempty]
    exact Nat.zero_le _
  obtain heq | ⟨f, f', hfiling, -, hfiles, -⟩ := h.events_cases hc
  · exact hold t (heq ▸ ht)
  · obtain ⟨d, htells⟩ := (hchron.filing hfiling).2.tells
    obtain ⟨hsame, -⟩ | ⟨hsame, -⟩ | ⟨t₀, ht₀, rfl⟩ :=
      hfiles.story_cases (hchron.story hempty) htells ht
    · exact hold t hsame
    · exact hold t hsame
    · have hreached : t₀.HasReached t₀.tickCount t₀.gameTime := ⟨UInt64.le_refl _, Nat.le_refl _⟩
      exact Nat.le_trans (hold t₀ ht₀) (hreached.after f.event d).gameTime

/-- A step that founds an entry takes it from the log. -/
theorem Step.story_of_found (h : v.Step w m a v') (hchron : v.Chronicled a)
    (hnone : v.entry = none) {entry' : World} (hentry' : v'.entry = some entry') :
    ∃ t, Story a v.events t ∧ t.gameTime = entry'.gameTime := by
  cases h with
  | restore herrand hworld hhistory =>
    obtain ⟨t, hstory, hrestored⟩ := hchron.story_of_restore hhistory
    cases hentry'
    exact ⟨t, hstory, congrArg World.gameTime hrestored⟩
  | enroll herrand hfiled hnew =>
    have hne : v.events ≠ [] := by
      obtain ⟨now, -, -, hstored⟩ := hchron.creation _ _ herrand
      simp [hstored hfiled]
    obtain ⟨t, hstory⟩ := hchron.story hne
    obtain ⟨d, rfl⟩ := hchron.story_of_created herrand hfiled hstory
    cases hentry'
    exact ⟨_, hstory, rfl⟩
  | askKnown | askUnknown | create | announce | fileCreation | fileAnnouncement | filePause
    | giveUp | askStop | breakDown | fileTick | fileResumption =>
    cases hnone.symm.trans hentry'
  | takeUp _ _ hentry | takeUpAnnounced _ _ hentry | pause _ _ _ hentry | pauseBroken _ hentry
    | goes _ hentry => cases hnone.symm.trans hentry

end View

namespace Ticker

variable {w : Wiring} {m : Moment} {t t' : Ticker} {entry entry' : World}

/-- A ticker that comes to record a tick has just begun the append of an event that tells of it. -/
theorem Goes.tells_tick (h : t.Goes w m entry t' entry') {cause : TickCause} {gameTime : Duration}
    {f : Filing} (hphase : t'.phase = .recording cause gameTime f) :
    f.verdict = none ∧ ∃ d, f.event.Tells t.world (.ticked d) ∧
      d.gameTime = .ofNanoCount gameTime.toNanoCount := by
  cases h with
  | tickUnpublished | published =>
    cases hphase
    exact ⟨rfl, _, Event.tells_ofWorld_self _ _ _ (by rintro ⟨⟩), rfl⟩
  | recorded | weathered =>
    cases (Phase.tickTime?_restAfter w _).symm.trans (congrArg Phase.tickTime? hphase)
  | _ => cases hphase

/-- A ticker asks for the weather when the append of its tick is over. -/
theorem Goes.recording_of_calls (h : t.Goes w m entry t' entry') {gameTime : Duration}
    (hcalls : t.Calls w entry t' entry' gameTime) :
    ∃ cause f, t.phase = .recording cause gameTime f ∧ t'.filing? = none ∧
      t'.phase.isCrashed = false := by
  have hasked : t'.phase.asked? ≠ none := fun hnone => by
    cases (Phase.asks_of_after t.phase hnone).symm.trans hcalls.asks
  cases h with
  | asked hphase =>
    have hsame : t.phase.tickTime? = some gameTime := hcalls.before
    rw [hphase] at hsame
    cases hsame
    exact ⟨_, _, hphase, rfl, rfl⟩
  | recorded | weathered => exact absurd (Phase.asked?_restAfter w _) hasked
  | _ => exact absurd rfl hasked

end Ticker

namespace View

variable {w : Wiring} {m : Moment} {a : WorldId} {v v' : View} {calls : List WeatherCall}

/-- The event of a tick that waits for the log tells no less than the tick's game time, and once it
is stored the log has come to that time. -/
def TellsTick (a : WorldId) (v : View) : Prop :=
  ∀ t cause gameTime f, v.ticker = some t → t.phase = .recording cause gameTime f →
    (∃ d, f.event.Tells a (.ticked d) ∧ gameTime ≤ d.gameTime) ∧
      (f.verdict = some (.ok ()) → ∀ t, Story a v.events t → gameTime ≤ t.gameTime)

theorem Step.tellsTick (h : v.Step w m a v') (hc : v.Coherent w a) (hchron : v.Chronicled a)
    (hv : v.TellsTick a) {last : Duration} (hv' : v'.HasPassed last)
    (hfits : ∀ entry, v'.entry = some entry → entry.gameTime.nanos ≤ Count.greatest) :
    v'.TellsTick a := by
  intro t' cause gameTime f hticker' hphase'
  cases h with
  | goes hticker hentry hgoes =>
    cases hticker'
    -- The tick is not ahead of the entry, so its game time can be told if that of the entry can.
    obtain ⟨hverdict, d, htells, htime⟩ := hgoes.tells_tick hphase'
    obtain ⟨-, hbehind⟩ := hv'.tick _ gameTime rfl ((tickTime?_of_ticker rfl).trans (by
      rw [hphase']; rfl))
    refine ⟨⟨d, hc.world_eq hticker ▸ htells, ?_⟩, fun hstored => by
      cases hverdict.symm.trans hstored⟩
    rw [htime, Duration.ofNanoCount_toNanoCount (Nat.le_trans hbehind (hfits _ rfl))]
    exact Nat.le_refl _
  | @fileTick t cause' gameTime' filing filing' events' hticker hphase hfiles =>
    cases hticker'
    cases hphase'
    obtain ⟨⟨d, htells, htime⟩, hstored⟩ := hv t cause gameTime filing hticker hphase
    refine ⟨⟨d, hfiles.event_eq ▸ htells, htime⟩, fun hverdict t' ht' => ?_⟩
    have hstory : ∃ t, Story a v.events t := hchron.story (hchron.entry (hc.ticker t hticker).2.1)
    obtain ⟨hsame, rfl⟩ | ⟨-, hrefused⟩ | ⟨t₀, -, rfl⟩ := hfiles.story_cases hstory htells ht'
    · exact hstored hverdict t' hsame
    · exact absurd hverdict hrefused
    · have hreached := t₀.hasReached_after filing.event
        (rfl : (Details.ticked d).totals? = some (d.tickCount, d.gameTimeNanos))
      exact Nat.le_trans htime hreached.gameTime
  | askStop herrand hticker =>
    cases hticker'
    exact hv _ cause gameTime f hticker hphase'
  | askKnown _ _ hticker | askUnknown _ _ hticker => cases hticker.symm.trans hticker'
  | create herrand | restore herrand | announce herrand | fileCreation herrand
    | fileAnnouncement herrand => cases (hc.ticker_eq_none herrand).symm.trans hticker'
  | filePause herrand =>
    cases (hc.ticker_eq_none_of_ne herrand (by rintro ⟨⟩)).symm.trans hticker'
  | giveUp herrand hjoining =>
    cases (hc.ticker_eq_none_of_ne herrand hjoining).symm.trans hticker'
  | takeUp _ _ _ hnew | takeUpAnnounced _ _ _ hnew | enroll _ _ hnew =>
    obtain ⟨delta, -, rfl⟩ := Option.map_eq_some_iff.mp hnew
    cases hticker'
    cases hphase'
  | fileResumption =>
    cases hticker'
    cases hphase'
  | pause | breakDown | pauseBroken => cases hticker'

/-- Every timeline that the log may give has come to the game time of the last call. -/
structure HasWritten (a : WorldId) (last : Duration) (v : View) : Prop where
  fresh : v.events = [] → last = .zero
  story : ∀ t, Story a v.events t → last ≤ t.gameTime
  tellsTick : v.TellsTick a

/-- A step keeps the log past the last call, if it loses no append. -/
theorem Step.hasWritten (h : v.Step w m a v') (hc : v.Coherent w a) (hchron : v.Chronicled a)
    (hv : v.HasWritten a (WeatherCall.last calls))
    (hpassed : v'.HasPassed (WeatherCall.last (v.noteCall w v' calls)))
    (hstores : v.loses v' = false)
    (hfits : ∀ entry, v'.entry = some entry → entry.gameTime.nanos ≤ Count.greatest) :
    v'.HasWritten a (WeatherCall.last (v.noteCall w v' calls)) := by
  have htells := h.tellsTick hc hchron hv.tellsTick hpassed hfits
  obtain hasks | ⟨t, t', entry, entry', gameTime, hticker, hentry, hgoes, hcall, rfl⟩ :=
    h.call_cases hc
  · rw [noteCall_of_none hasks]
    refine ⟨fun hempty => hv.fresh ?_, fun t ht => h.le_story hc hchron hv.fresh hv.story ht,
      htells⟩
    exact Decidable.byContradiction fun hne => h.events_ne_nil hne hempty
  · -- The call ends the append of its tick, and an append that is not lost has been stored.
    obtain ⟨cause, f, hphase, hidle, hsound⟩ := hgoes.recording_of_calls hcall
    have hstored : f.verdict = some (.ok ()) := by
      refine isStored_of_loses hstores ((filing?_of_ticker hticker).trans ?_)
        ((filing?_of_ticker rfl).trans hidle) hsound
      rw [Ticker.filing?, hphase]
    rw [noteCall_of_calls hticker rfl hcall]
    exact ⟨fun hempty => absurd hempty (hchron.entry (by simp [hentry])),
      (hv.tellsTick t cause gameTime f hticker hphase).2 hstored, htells⟩

end View

/-! ### Courses -/

/-- Every process lets simulated time start at a given time. -/
def Incident.KeepsEpoch (epoch : Utc) : Incident → Prop
  | .move _ _ => True
  | .death wiring _ => wiring.clock.epoch = epoch

/-- All that is kept of the view of a world and of the calls about it. Where the log is safe, it has
come to the last call; where it is not, no process may die. -/
structure View.KeepsOrder (epoch : Utc) (safe : Prop) (a : WorldId) (v : View)
    (calls : List WeatherCall) : Prop where
  passed : v.HasPassed (WeatherCall.last calls)
  unseen : v.entry = none → safe ∨ WeatherCall.last calls = .zero
  chronicled : safe → v.Chronicled a
  written : safe → v.HasWritten a (WeatherCall.last calls)
  synthetic : ∀ call ∈ calls, call.synthetic = Utc.synthetic epoch call.gameTime
  inOrder : WeatherCall.InOrder calls

namespace View.KeepsOrder

variable {w : Wiring} {m : Moment} {epoch : Utc} {safe : Prop} {a : WorldId} {v v' : View}
  {calls : List WeatherCall}

theorem step (hw : w.clock.epoch = epoch) (hc : v.Coherent w a)
    (hv : v.KeepsOrder epoch safe a calls) (h : v.Step w m a v')
    (hsafe : safe → v.loses v' = false ∧
      ∀ entry, v'.entry = some entry → entry.gameTime.nanos ≤ Count.greatest) :
    v'.KeepsOrder epoch safe a (v.noteCall w v' calls) := by
  obtain ⟨hpassed, hinOrder⟩ := h.hasPassed hc hv.passed hv.inOrder fun entry hnone hentry => by
    obtain h' | hzero := hv.unseen hnone
    · obtain ⟨t, hstory, htime⟩ := h.story_of_found (hv.chronicled h') hnone hentry
      exact htime ▸ (hv.written h').story t hstory
    · rw [hzero]
      exact Nat.zero_le _
  refine ⟨hpassed, fun hnone => ?_, fun h' => h.chronicled hc (hv.chronicled h'), fun h' => ?_, ?_,
    hinOrder⟩
  · have hnone' : v.entry = none :=
      Decidable.byContradiction fun hne => h.entry_ne_none hne hnone
    obtain hasks | ⟨_, _, _, _, _, -, hentry, -⟩ := h.call_cases hc
    · rw [noteCall_of_none hasks]
      exact hv.unseen hnone'
    · cases hnone'.symm.trans hentry
  · exact h.hasWritten hc (hv.chronicled h') (hv.written h') hpassed (hsafe h').1 (hsafe h').2
  · obtain hasks | ⟨t, t', entry, entry', gameTime, hticker, -, -, hcall, rfl⟩ := h.call_cases hc
    · rw [noteCall_of_none hasks]
      exact hv.synthetic
    · rw [noteCall_of_calls hticker rfl hcall]
      exact List.forall_mem_cons.mpr ⟨congrArg (Utc.synthetic · gameTime) hw, hv.synthetic⟩

theorem update (hv : v.KeepsOrder epoch safe a calls) {entry new : World}
    (hentry : v.entry = some entry) (hforward : entry.gameTime ≤ new.gameTime) :
    ({ v with entry := some new } : View).KeepsOrder epoch safe a calls where
  passed := by
    refine ⟨fun e he => ?_, fun e tickTime he htick => ?_⟩
    · cases he
      exact Nat.le_trans (hv.passed.entry entry hentry) hforward
    · cases he
      obtain ⟨hpassed, hbehind⟩ := hv.passed.tick entry tickTime hentry htick
      exact ⟨hpassed, Nat.le_trans hbehind hforward⟩
  unseen hnone := nomatch hnone
  chronicled h := (hv.chronicled h).update hentry
  written h := ⟨(hv.written h).fresh, (hv.written h).story, (hv.written h).tellsTick⟩
  synthetic := hv.synthetic
  inOrder := hv.inOrder

theorem afterDeath (hv : v.KeepsOrder epoch safe a calls) (hsafe : safe) :
    v.afterDeath.KeepsOrder epoch safe a calls where
  passed := ⟨by rintro _ ⟨⟩, by rintro _ _ ⟨⟩⟩
  unseen _ := .inl hsafe
  chronicled h := chronicled_afterDeath (hv.chronicled h)
  written h := ⟨(hv.written h).fresh, (hv.written h).story, by rintro _ _ _ _ ⟨⟩⟩
  synthetic := hv.synthetic
  inOrder := hv.inOrder

end View.KeepsOrder

namespace Manager

variable {epoch : Utc} {safe : Prop} {a : WorldId} {p : Manager} {calls : List WeatherCall}

theorem keepsOrder_move (hp : p.Coherent) (hw : p.wiring.clock.epoch = epoch)
    (hv : (p.viewOf a).KeepsOrder epoch safe a calls) (m : Moment) (move : Move)
    (hsafe : safe → p.storesAll a [.move m move] = true ∧ p.isTellable a [.move m move] = true) :
    ((p.apply m move).viewOf a).KeepsOrder epoch safe a
      ((p.viewOf a).noteCall p.wiring ((p.apply m move).viewOf a) calls) := by
  obtain hview | hsteps | ⟨change, entry, -, hentry, hregression, hview⟩ :=
    apply_cases hp m move a
  · rw [hview, View.noteCall_of_none (View.asks_of_ticker_eq rfl)]
    exact hv
  · refine hv.step hw (hp a) hsteps fun h => ?_
    obtain ⟨hstores, hfits⟩ := hsafe h
    rw [storesAll, throughout, Bool.and_eq_true, Bool.not_eq_true'] at hstores
    rw [isTellable, throughout, Bool.and_eq_true] at hfits
    exact ⟨hstores.1, fun entry hentry =>
      of_decide_eq_true ((Option.all_eq_true _ _).mp hfits.1 entry hentry)⟩
  · obtain ⟨-, -, hforward, -⟩ := World.regression?_eq_none.mp hregression
    have hnone : (p.viewOf a).asks ({ p.viewOf a with entry := some (change entry) } : View) =
        none := View.asks_of_ticker_eq rfl
    rw [hview, View.noteCall_of_none hnone]
    exact hv.update hentry hforward

theorem keepsOrder_live (hp : p.Coherent) (hw : p.wiring.clock.epoch = epoch)
    (hv : (p.viewOf a).KeepsOrder epoch safe a calls) {course : List Incident}
    (hcourse : ∀ i ∈ course, i.KeepsEpoch epoch ∧ (i.isDeath = true → safe))
    (hsafe : safe → p.storesAll a course = true ∧ p.isTellable a course = true) :
    ((p.live course).viewOf a).KeepsOrder epoch safe a (p.noteWeather a calls course) := by
  induction course generalizing p calls with
  | nil => exact hv
  | cons i course ih =>
    have hrules (h : safe) : (p.storesAll a [i] = true ∧ p.isTellable a [i] = true) ∧
        (p.meet i).storesAll a course = true ∧ (p.meet i).isTellable a course = true := by
      obtain ⟨hstores, hfits⟩ := hsafe h
      rw [storesAll, throughout_cons, Bool.and_eq_true] at hstores
      rw [isTellable, throughout_cons, Bool.and_eq_true] at hfits
      exact ⟨⟨hstores.1, hfits.1⟩, hstores.2, hfits.2⟩
    obtain ⟨hepoch, hdeath⟩ := hcourse i List.mem_cons_self
    refine ih (hp.meet i) ?_ ?_ (fun j hj => hcourse j (List.mem_cons_of_mem i hj))
      (fun h => (hrules h).2)
    · cases i with
      | move m move => exact (apply_wiring hp m move).symm ▸ hw
      | death wiring projections => exact hepoch
    · rw [noteCalls_meet hp]
      cases i with
      | move m move => exact keepsOrder_move hp hw hv m move fun h => (hrules h).1
      | death wiring projections =>
        rw [View.noteCall_of_none (View.asks_of_none (.inr rfl))]
        exact hv.afterDeath (hdeath rfl)

theorem pairwise_synthetic {calls : List WeatherCall} (hepoch : epoch ≤ Utc.latest)
    (hsynthetic : ∀ call ∈ calls, call.synthetic = Utc.synthetic epoch call.gameTime)
    (hinOrder : WeatherCall.InOrder calls) :
    (calls.map (·.synthetic)).Pairwise fun later earlier => earlier ≤ later := by
  rw [List.pairwise_map]
  refine hinOrder.imp_of_mem fun hlater hearlier hle => ?_
  rw [hsynthetic _ hlater, hsynthetic _ hearlier]
  exact Utc.synthetic_le_synthetic hepoch (.inr ⟨rfl, Nat.le_refl _⟩) (fun _ => rfl) hle

/-- The calls of one process are in order, whatever the log has been and whoever else moves the
clock of the world on. -/
theorem pairwise_weatherLog_of_undying {w : Wiring} (hepoch : w.clock.epoch ≤ Utc.latest)
    (log : EventLog) (projections : Option (Dispatcher ReadModel)) (a : WorldId)
    {course : List Incident} (hcourse : ∀ i ∈ course, i.isDeath = false) :
    (((start w log projections).weatherLog a course).map (·.synthetic)).Pairwise
      fun later earlier => earlier ≤ later := by
  have hstart : ((start w log projections).viewOf a).KeepsOrder w.clock.epoch False a [] :=
    ⟨⟨by rintro _ ⟨⟩, by rintro _ _ ⟨⟩⟩, fun _ => .inr rfl, False.elim, False.elim, by simp, .nil⟩
  have hrules : ∀ i ∈ course, i.KeepsEpoch w.clock.epoch ∧ (i.isDeath = true → False) := by
    intro i hi
    have hlives := hcourse i hi
    cases i with
    | move => exact ⟨trivial, fun hdeath => by cases hdeath⟩
    | death => cases hlives
  have hkept := keepsOrder_live (coherent_start w log projections) rfl hstart hrules False.elim
  exact pairwise_synthetic hepoch hkept.synthetic hkept.inOrder

/-- The calls of a line of processes about a world that nobody wrote about before are in order, if
simulated time starts at the same time in all of them, the log takes every append that ends, and the
game time can be told in 64 bits. -/
theorem pairwise_weatherLog {w : Wiring} (hepoch : w.clock.epoch ≤ Utc.latest) {log : EventLog}
    (projections : Option (Dispatcher ReadModel)) {a : WorldId} (hfresh : log.about a = [])
    {course : List Incident} (hcourse : ∀ i ∈ course, i.KeepsEpoch w.clock.epoch)
    (hstores : (start w log projections).storesAll a course = true)
    (hfits : (start w log projections).isTellable a course = true) :
    (((start w log projections).weatherLog a course).map (·.synthetic)).Pairwise
      fun later earlier => earlier ≤ later := by
  have hstart : ((start w log projections).viewOf a).KeepsOrder w.clock.epoch True a [] := by
    rw [viewOf_start w projections hfresh]
    exact ⟨⟨by rintro _ ⟨⟩, by rintro _ _ ⟨⟩⟩, fun _ => .inr rfl, fun _ => View.chronicled_nil a,
      fun _ => ⟨fun _ => rfl, fun t hstory => absurd rfl hstory.ne_nil, by rintro _ _ _ _ ⟨⟩⟩,
      by simp, .nil⟩
  have hkept := keepsOrder_live (coherent_start w log projections) rfl hstart
    (fun i hi => ⟨hcourse i hi, fun _ => trivial⟩) fun _ => ⟨hstores, hfits⟩
  exact pairwise_synthetic hepoch hkept.synthetic hkept.inOrder

/-- From an epoch outside a leap second, a moment of simulated time stands for the epoch and the
time that has passed, as far as there are times; from one in a leap second it does so until the leap
second is over, and after that for a second less. So it is not earlier for a later epoch or a longer
time, unless the later epoch is in the leap second that follows the earlier one's second; and it is
later for a longer time until the last time is reached. The weather calls about a world, the latest
one first, are about times that do not go back: in a process that does not die; and in a line of
processes that have one epoch and write all of the world's history, if the log takes every append
that ends and the game time can be told in 64 bits. -/
theorem synthetic_times_in_order :
    (∀ epoch t, epoch.isLeap = false →
        (Utc.synthetic epoch t).isLeap = false ∧
          (Utc.synthetic epoch t).unixNanos =
            min (epoch.unixNanos + t.nanos) Utc.latest.unixNanos) ∧
      (∀ epoch t, epoch.isLeap = true →
        if epoch.nanos + t.nanos < 2 * nanosPerSecond then
          (Utc.synthetic epoch t).isLeap = true ∧
            (Utc.synthetic epoch t).unixNanos = epoch.unixNanos + t.nanos
        else
          (Utc.synthetic epoch t).isLeap = false ∧ (Utc.synthetic epoch t).unixNanos =
            min (epoch.unixNanos + t.nanos - nanosPerSecond) Utc.latest.unixNanos) ∧
      (∀ epoch epoch' t t', epoch ≤ Utc.latest → epoch ≤ epoch' → epoch.LeapAlike epoch' →
        t ≤ t' → Utc.synthetic epoch t ≤ Utc.synthetic epoch' t') ∧
      (∀ epoch t t', t < t' → Utc.synthetic epoch t < Utc.latest →
        Utc.synthetic epoch t < Utc.synthetic epoch t') ∧
      ∀ w, w.clock.epoch ≤ Utc.latest →
        (∀ log projections a course, (∀ i ∈ course, i.isDeath = false) →
          (((start w log projections).weatherLog a course).map (·.synthetic)).Pairwise
            fun later earlier => earlier ≤ later) ∧
        ∀ log projections a course, log.about a = [] →
          (∀ i ∈ course, i.KeepsEpoch w.clock.epoch) →
          (start w log projections).storesAll a course = true →
          (start w log projections).isTellable a course = true →
          (((start w log projections).weatherLog a course).map (·.synthetic)).Pairwise
            fun later earlier => earlier ≤ later :=
  ⟨fun _ _ => Utc.synthetic_of_not_isLeap,
    fun _ _ => Utc.synthetic_of_isLeap,
    fun _ _ _ _ => Utc.synthetic_le_synthetic,
    fun _ _ _ => Utc.synthetic_lt_synthetic,
    fun _ hepoch => ⟨fun log projections a _ =>
        pairwise_weatherLog_of_undying hepoch log projections a,
      fun _ projections _ _ hfresh => pairwise_weatherLog hepoch projections hfresh⟩⟩

/-- Half an hour from a leap second, and the calls of a world that asks for the weather twice. -/
theorem synthetic_times_in_order_of_askedTwice :
    let calls := (start asking .empty none).weatherLog ⟨⟨0⟩⟩ (askedTwice ⟨⟨0⟩⟩)
    (Utc.synthetic Utc.leapSecond (.ofSeconds 1800)).unixNanos = 1483230599000000000 ∧
      calls.map (·.synthetic.unixNanos) = [946689600000000000, 946687200000000000] ∧
      (calls.map (·.synthetic)).Pairwise fun later earlier => earlier ≤ later := by
  have hleap := synthetic_times_in_order.2.1 Utc.leapSecond (.ofSeconds 1800) (by decide)
  rw [if_neg (by decide)] at hleap
  refine ⟨hleap.2.trans (by decide), by decide +kernel, ?_⟩
  exact (synthetic_times_in_order.2.2.2.2 asking (by decide)).2 .empty none ⟨⟨0⟩⟩
    (askedTwice ⟨⟨0⟩⟩) rfl (by simp [askedTwice, spawnAtPace, tickAt, goOnAt, Incident.KeepsEpoch])
    (by decide +kernel) (by decide +kernel)

/-- It makes a tick, and its process asks for the weather, but the log does not take the tick. -/
def loseTickAt (world : WorldId) (millis : Nat) : List Incident :=
  [.move (momentAt millis) (.poll world), .move (momentAt millis) (.answer world .answered),
    .move (momentAt millis) (.concludeFor world .timedOut),
    .move (momentAt millis) (.answer world .answered)]

/-- The log takes neither of two ticks, and the process dies. The next one restores the world as it
was before them, and the world goes on. -/
def setBackOnce (world : WorldId) : List Incident :=
  spawnAtPace world 0 40 ++ loseTickAt world 100 ++ loseTickAt world 200 ++
    [.death asking none, .move (momentAt 200) (.spawn ⟨world, "world", .ofNat 24000⟩),
      .move (momentAt 200) (.read none), .move (momentAt 200) (.read none),
      .move (momentAt 200) .file, .move (momentAt 200) (.conclude .answered),
      .move (momentAt 200) (.poll world)] ++
    goOnAt world 200 ++ tickAt world 300 .answered

/-- The time that stands for a moment is a second short after a leap second, so that it is earlier
than from an epoch a tenth of a second before; from the leap second after the last time it goes back
to that. And after a restart that loses ticks the time of the first tick is asked about once more,
after that of the second. -/
theorem synthetic_times_out_of_order :
    (∃ early, Utc.ofText? "2016-12-31T23:59:59.9Z" = some early ∧
      Utc.ofText? "2016-12-31T23:59:60Z" = some Utc.leapSecond ∧ early ≤ Utc.leapSecond ∧
      (Utc.synthetic Utc.leapSecond (.ofSeconds 10)).unixNanos ≠
        min (Utc.leapSecond.unixNanos + (Duration.ofSeconds 10).nanos) Utc.latest.unixNanos ∧
      ¬ Utc.synthetic early (.ofSeconds 10) ≤ Utc.synthetic Utc.leapSecond (.ofSeconds 10)) ∧
    (∃ last, Utc.ofText? "+262142-12-31T23:59:60Z" = some last ∧
      ¬ Utc.synthetic last .zero ≤ Utc.synthetic last (.ofSeconds 1)) ∧
    let calls := (start asking .empty none).weatherLog ⟨⟨0⟩⟩ (setBackOnce ⟨⟨0⟩⟩)
    calls.map (·.synthetic.unixNanos) =
        [946687200000000000, 946689600000000000, 946687200000000000] ∧
      ¬ (calls.map (·.synthetic)).Pairwise fun later earlier => earlier ≤ later := by
  refine ⟨⟨⟨1483228799, 900000000, by decide, by decide, .inl (by decide)⟩, by decide +kernel,
    by decide +kernel, by decide, by decide, by decide⟩,
    ⟨⟨8210266876799, nanosPerSecond, by decide, by decide, .inr (by decide)⟩, by decide +kernel,
    by decide⟩, by decide +kernel⟩

end Manager

end WorldClock
