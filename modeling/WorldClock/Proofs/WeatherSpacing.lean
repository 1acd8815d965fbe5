import WorldClock.Proofs.Agreement
import WorldClock.Proofs.Manager.WeatherMarks
import WorldClock.Proofs.StopAndRestore

/-!
# Weather calls are spaced by game time

A ticker asks for the weather when its world has come by at least the weather interval since the
last call. Whoever watches a world notes each call with the tick that makes it
(`Manager.weatherLog`). No two calls are closer than the interval, through stops, catch-ups and
restarts that follow a stop done well, whatever comes of the calls. As a tick is looked at before
the next one begins, no call is later than the interval and the delta of its tick either, and
between ticks a world is always less than an interval ahead of its last call.

For the latter nobody else may move the clock on, and no ticker may break down in a tick before it
has looked whether the weather is due: either leaves the world further ahead than the next tick
should find it.
-/

namespace WorldClock

/-! ### Spacing -/

namespace WeatherCall

/-- What a call asks about is the game time of its tick. -/
def IsFaithful (call : WeatherCall) : Prop :=
  call.synthetic = Utc.synthetic call.wiring.clock.epoch call.gameTime ∧
    call.season = call.wiring.calendar.season call.gameTime

/-- A call is not sooner than an interval after the one before it. -/
def NotBefore (interval last : Duration) (call : WeatherCall) : Prop :=
  last.nanos + interval.nanos ≤ call.gameTime.nanos

/-- The tick of a call is the first one to pass an interval after the call before it. -/
def NotAfter (interval last : Duration) (call : WeatherCall) : Prop :=
  call.gameTime.nanos < last.nanos + interval.nanos + call.delta.nanos

/-- Each of some calls, the latest one first, keeps to a rule about the game time of the call before
it. -/
inductive Spaced (rule : Duration → WeatherCall → Prop) : List WeatherCall → Prop where
  | nil : Spaced rule []
  | cons {call : WeatherCall} {earlier : List WeatherCall} (hrule : rule (last earlier) call)
    (hearlier : Spaced rule earlier) : Spaced rule (call :: earlier)

theorem spaced_cons {rule : Duration → WeatherCall → Prop} {call : WeatherCall}
    {earlier : List WeatherCall} :
    Spaced rule (call :: earlier) ↔ rule (last earlier) call ∧ Spaced rule earlier :=
  ⟨fun | .cons hrule hearlier => ⟨hrule, hearlier⟩, fun h => .cons h.1 h.2⟩

instance (interval last : Duration) (call : WeatherCall) :
    Decidable (NotBefore interval last call) := inferInstanceAs (Decidable (_ ≤ _))

instance (interval last : Duration) (call : WeatherCall) :
    Decidable (NotAfter interval last call) := inferInstanceAs (Decidable (_ < _))

instance decidableSpaced (rule : Duration → WeatherCall → Prop)
    [∀ last call, Decidable (rule last call)] : (calls : List WeatherCall) →
      Decidable (Spaced rule calls)
  | [] => .isTrue .nil
  | _ :: earlier =>
    have := decidableSpaced rule earlier
    decidable_of_iff _ spaced_cons.symm

end WeatherCall

namespace View

variable {w : Wiring} {m : Moment} {a : WorldId} {v v' : View} {calls : List WeatherCall}

theorem Step.faithful (hc : v.Coherent w a) (h : v.Step w m a v')
    (hcalls : ∀ call ∈ calls, call.IsFaithful) :
    ∀ call ∈ v.noteCall w v' calls, call.IsFaithful := by
  obtain hasks | ⟨t, t', entry, entry', gameTime, hticker, -, -, hcall, rfl⟩ := h.call_cases hc
  · rwa [noteCall_of_none hasks]
  · rw [noteCall_of_calls hticker rfl hcall]
    exact List.forall_mem_cons.mpr ⟨⟨rfl, rfl⟩, hcalls⟩

theorem Step.notBefore (hinterval : 0 < w.clock.weatherInterval.nanos) (hc : v.Coherent w a)
    {saved : Bool} (hmarked : v.Marked a saved (WeatherCall.last calls)) (h : v.Step w m a v')
    (hcalls : WeatherCall.Spaced (WeatherCall.NotBefore w.clock.weatherInterval) calls) :
    WeatherCall.Spaced (WeatherCall.NotBefore w.clock.weatherInterval) (v.noteCall w v' calls) := by
  obtain hasks | ⟨t, t', entry, entry', gameTime, hticker, -, -, hcall, rfl⟩ := h.call_cases hc
  · rwa [noteCall_of_none hasks]
  · rw [noteCall_of_calls hticker rfl hcall]
    refine .cons ?_ hcalls
    have hdue : w.clock.weatherInterval.nanos ≤ (gameTime.sub t.weatherSyncedAt).nanos := hcall.due
    rw [Duration.nanos_sub, (hmarked.ticker t hticker).2] at hdue
    change (WeatherCall.last calls).nanos + _ ≤ gameTime.nanos
    omega

theorem Step.notAfter (hc : v.Coherent w a)
    (hpaced : v.Paced w.clock.weatherInterval a (WeatherCall.last calls)) (h : v.Step w m a v')
    (hcalls : WeatherCall.Spaced (WeatherCall.NotAfter w.clock.weatherInterval) calls) :
    WeatherCall.Spaced (WeatherCall.NotAfter w.clock.weatherInterval) (v.noteCall w v' calls) := by
  obtain hasks | ⟨t, t', entry, entry', gameTime, hticker, hentry, -, hcall, rfl⟩ :=
    h.call_cases hc
  · rwa [noteCall_of_none hasks]
  · obtain ⟨-, hless⟩ := hpaced.ticking entry gameTime hentry
      ((tickTime?_of_ticker hticker).trans hcall.before)
    rw [tickDelta_of_ticker hticker] at hless
    rw [noteCall_of_calls hticker rfl hcall]
    exact .cons hless hcalls

/-! ### Deaths and updates from outside -/

/-- A death after a stop that was done well loses no mark. -/
theorem Marked.afterDeath {mark : Duration} (h : v.Marked a true mark) :
    v.afterDeath.Marked a true mark where
  fits := h.fits
  fresh := h.fresh
  ticker _ ht := nomatch ht
  entry _ he := nomatch he
  pause _ _ _ he := nomatch he
  kept _ := h.kept (.inl rfl)

/-- The log tells of no more than the registry does. -/
theorem Paced.afterDeath {interval last : Duration} (h : v.Paced interval a last)
    (hleads : v.EntryLeads a) (hticker : v.ticker = none) :
    v.afterDeath.Paced interval a last where
  rest _ he := nomatch he
  ticking _ _ he := nomatch he
  entryless _ t hstory := by
    cases hentry : v.entry with
    | none => exact h.entryless hentry t hstory
    | some entry =>
      exact Nat.lt_of_le_of_lt (hleads.timeline entry t hentry hstory).gameTime
        (h.rest entry hentry (tickTime?_of_none hticker))

theorem Marked.update {saved : Bool} {mark : Duration} (h : v.Marked a saved mark)
    {entry new : World} (hentry : v.entry = some entry)
    (hmark : new.weatherSyncedAt = entry.weatherSyncedAt) :
    ({ v with entry := some new } : View).Marked a saved mark where
  fits := h.fits
  fresh := h.fresh
  ticker := h.ticker
  entry e he := by
    cases he
    exact hmark.trans (h.entry entry hentry)
  pause := h.pause
  kept hkept := h.kept (hkept.imp_right fun hnone => nomatch hnone)

theorem Chronicled.update (h : v.Chronicled a) {entry new : World} (hentry : v.entry = some entry) :
    ({ v with entry := some new } : View).Chronicled a :=
  ⟨h.ascends, h.story, fun _ => h.entry (by simp [hentry]), h.ticker, h.errand, h.creation⟩

theorem Marked.saved {saved : Bool} {mark : Duration} (h : v.Marked a saved mark) {f : Filing}
    {world : World} {pending : Count} (hticker : v.ticker = none)
    (herrand : v.errand = some (.stop a (.recording f world pending)))
    (hstored : f.verdict = some (.ok ())) :
    ({ v with errand := none } : View).Marked a true mark where
  fits := h.fits
  fresh := h.fresh
  ticker _ ht := nomatch hticker.symm.trans ht
  entry := h.entry
  pause _ _ _ he := nomatch he
  kept _ := (h.pause f world pending herrand).2 hstored

end View

/-! ### Courses -/

/-- A wiring of processes that ask for the weather at a given interval. -/
structure Wiring.AsksEvery (w : Wiring) (interval : Duration) : Prop where
  usable : w.IsUsable
  asksWeather : w.asksWeather = true
  interval : w.clock.weatherInterval = interval

def Incident.isDeath : Incident → Bool
  | .move _ _ => false
  | .death _ _ => true

/-- Every process asks for the weather at the same interval. -/
def Incident.AsksEvery (interval : Duration) : Incident → Prop
  | .move _ _ => True
  | .death wiring _ => wiring.AsksEvery interval

namespace Manager

/-- What was asked about the weather of a world between two moments of a process, the latest call
first. -/
def askedSince (p q : Manager) (a : WorldId) : List (Utc × Season) :=
  (q.weatherCallsOf a).take ((q.weatherCallsOf a).length - (p.weatherCallsOf a).length)

def noteCalls (p q : Manager) (a : WorldId) (calls : List WeatherCall) : List WeatherCall :=
  (p.askedSince q a).map ((p.viewOf a).callOf p.wiring) ++ calls

/-- The weather calls about a world at the end of a course, the latest one first, after those noted
before. -/
def noteWeather (p : Manager) (a : WorldId) (calls : List WeatherCall) :
    List Incident → List WeatherCall
  | [] => calls
  | i :: course => (p.meet i).noteWeather a (p.noteCalls (p.meet i) a calls) course

/-- The weather calls about a world in a course, the latest one first. -/
def weatherLog (p : Manager) (a : WorldId) (course : List Incident) : List WeatherCall :=
  p.noteWeather a [] course

theorem noteCalls_meet {p : Manager} (hp : p.Coherent) (i : Incident) (a : WorldId)
    (calls : List WeatherCall) : p.noteCalls (p.meet i) a calls =
      (p.viewOf a).noteCall p.wiring ((p.meet i).viewOf a) calls := by
  cases i with
  | move m move =>
    have hasked := apply_asks hp m move a
    change p.noteCalls (p.apply m move) a calls = _
    rw [noteCalls, askedSince, hasked, List.length_append, Nat.add_sub_cancel, List.take_left]
    rfl
  | death wiring projections =>
    have hnone : (p.meet (.death wiring projections)).weatherCallsOf a = [] := rfl
    rw [noteCalls, askedSince, hnone, List.take_nil]
    exact (View.noteCall_of_none (View.asks_of_none (.inr rfl))).symm

/-- Whether nobody else changes a part of the entry of a world. -/
def leaves (p : Manager) (part : World → Duration) (a : WorldId) (course : List Incident) : Bool :=
  p.throughout a (fun v i v' => match i with
    | .move _ (.update _ _) => decide (v'.entry.map part = v.entry.map part)
    | _ => true) course

/-- Whether no ticker of a world breaks down between what a tick does to the registry and its look
at the weather. -/
def endsTicks (p : Manager) (a : WorldId) (course : List Incident) : Bool :=
  p.throughout a (fun v _ v' => !(v.tickTime?.isSome && v'.isBroken)) course

/-- Whether the last stop of a world was done well and no ticker of it has started since. -/
def savedAfter (p q : Manager) (a : WorldId) (saved : Bool) : Bool :=
  if p.stopping? = some a ∧ q.result? = some (.ok ()) then true
  else saved && (q.viewOf a).ticker.isNone

/-- Whether at the death of every process the last stop of a world was done well, and no ticker of
it has started since. -/
def diesSaved (p : Manager) (a : WorldId) (saved : Bool) : List Incident → Bool
  | [] => true
  | i :: course =>
    (saved || !i.isDeath) && (p.meet i).diesSaved a (p.savedAfter (p.meet i) a saved) course

end Manager

/-! ### What a course keeps -/

/-- All that is kept of the view of a world and of the calls about it. The bounds from above are
kept as long as the course is whole: nobody else moves the clock on, and every tick comes to its
look at the weather. -/
structure View.KeepsSpacing (interval : Duration) (whole : Prop) (a : WorldId) (v : View)
    (saved : Bool) (calls : List WeatherCall) : Prop where
  chronicled : v.Chronicled a
  leads : v.EntryLeads a
  marked : v.Marked a saved (WeatherCall.last calls)
  faithful : ∀ call ∈ calls, call.IsFaithful
  notBefore : WeatherCall.Spaced (WeatherCall.NotBefore interval) calls
  paced : whole → v.Paced interval a (WeatherCall.last calls)
  notAfter : whole → WeatherCall.Spaced (WeatherCall.NotAfter interval) calls

namespace View.KeepsSpacing

variable {w : Wiring} {m : Moment} {interval : Duration} {whole : Prop} {a : WorldId}
  {v v' : View} {saved saved' : Bool} {calls : List WeatherCall}

theorem nil (interval : Duration) (whole : Prop) (a : WorldId) :
    (View.mk none none none []).KeepsSpacing interval whole a true [] where
  chronicled := chronicled_nil a
  leads := entryLeads_of_none rfl
  marked := ⟨Nat.zero_le _, fun _ => rfl, by rintro _ ⟨⟩, by rintro _ ⟨⟩, by rintro _ _ _ ⟨⟩,
    fun _ t hstory => absurd rfl hstory.ne_nil⟩
  faithful := by simp
  notBefore := .nil
  paced _ := ⟨by rintro _ ⟨⟩, by rintro _ _ ⟨⟩, fun _ t hstory => absurd rfl hstory.ne_nil⟩
  notAfter _ := .nil

theorem step (hw : w.AsksEvery interval) (hc : v.Coherent w a)
    (hv : v.KeepsSpacing interval whole a saved calls) (h : v.Step w m a v')
    (hsaved : saved' = true → saved = true) (hrunning : ∀ t, v'.ticker = some t → saved' = false)
    (hfits : ∀ entry, v'.entry = some entry → entry.gameTime.nanos ≤ Count.greatest)
    (hunbroken : whole → (v.tickTime?.isSome && v'.isBroken) = false) :
    v'.KeepsSpacing interval whole a saved' (v.noteCall w v' calls) := by
  have hinterval := hw.usable.weatherInterval_pos
  obtain rfl := hw.interval
  exact
    { chronicled := h.chronicled hc hv.chronicled
      leads := h.entryLeads hinterval hc hv.chronicled hv.marked hv.leads
      marked := h.marked hinterval hc hv.chronicled hv.leads hv.marked hsaved hrunning
        hfits
      faithful := h.faithful hc hv.faithful
      notBefore := h.notBefore hinterval hc hv.marked hv.notBefore
      paced := fun hwhole => h.paced hw.asksWeather hinterval hc hv.chronicled hv.marked
        (hv.paced hwhole) (hunbroken hwhole)
      notAfter := fun hwhole => h.notAfter hc (hv.paced hwhole) (hv.notAfter hwhole) }

theorem update (hv : v.KeepsSpacing interval whole a saved calls) {entry new : World}
    (hentry : v.entry = some entry) (hregression : entry.regression? new = none)
    (hmark : new.weatherSyncedAt = entry.weatherSyncedAt)
    (htime : whole → new.gameTime = entry.gameTime) :
    ({ v with entry := some new } : View).KeepsSpacing interval whole a saved calls where
  chronicled := hv.chronicled.update hentry
  leads := by
    obtain ⟨-, -, hforward, -⟩ := World.regression?_eq_none.mp hregression
    exact hv.leads.update hentry hforward hmark
  marked := hv.marked.update hentry hmark
  faithful := hv.faithful
  notBefore := hv.notBefore
  paced hwhole := (hv.paced hwhole).still hentry rfl (htime hwhole) rfl (.inr rfl)
  notAfter := hv.notAfter

theorem afterDeath (hv : v.KeepsSpacing interval whole a true calls) :
    v.afterDeath.KeepsSpacing interval whole a true calls where
  chronicled := chronicled_afterDeath hv.chronicled
  leads := entryLeads_of_none rfl
  marked := hv.marked.afterDeath
  faithful := hv.faithful
  notBefore := hv.notBefore
  paced hwhole := by
    have hticker : v.ticker = none := by
      cases hticker : v.ticker with
      | none => rfl
      | some t => cases (hv.marked.ticker t hticker).1
    exact (hv.paced hwhole).afterDeath hv.leads hticker
  notAfter := hv.notAfter

theorem saved_eq (hv : v.KeepsSpacing interval whole a saved calls) :
    (saved && v.ticker.isNone) = saved := by
  cases hticker : v.ticker with
  | none => exact Bool.and_true saved
  | some t => rw [(hv.marked.ticker t hticker).1, Bool.false_and]

end View.KeepsSpacing

namespace Manager

variable {interval : Duration} {whole : Prop} {a : WorldId} {p : Manager} {saved : Bool}
  {calls : List WeatherCall}

theorem keepsSpacing_move (hp : p.Coherent) (hw : p.wiring.AsksEvery interval)
    (hv : (p.viewOf a).KeepsSpacing interval whole a saved calls) (m : Moment) (move : Move)
    (hmark : p.leaves (·.weatherSyncedAt) a [.move m move] = true)
    (hwhole : whole → p.leaves (·.gameTime) a [.move m move] = true ∧
      p.endsTicks a [.move m move] = true)
    (hfits : p.isTellable a [.move m move] = true) :
    ((p.apply m move).viewOf a).KeepsSpacing interval whole a
      (saved && ((p.apply m move).viewOf a).ticker.isNone)
      ((p.viewOf a).noteCall p.wiring ((p.apply m move).viewOf a) calls) := by
  have hstay (hview : (p.apply m move).viewOf a = p.viewOf a) :
      ((p.apply m move).viewOf a).KeepsSpacing interval whole a
        (saved && ((p.apply m move).viewOf a).ticker.isNone)
        ((p.viewOf a).noteCall p.wiring ((p.apply m move).viewOf a) calls) := by
    rw [hview, hv.saved_eq, View.noteCall_of_none (View.asks_of_ticker_eq rfl)]
    exact hv
  obtain hview | hsteps | ⟨change, entry, rfl, hentry, hregression, hview⟩ :=
    apply_cases hp m move a
  · exact hstay hview
  · refine hv.step hw (hp a) hsteps (fun h => (Bool.and_eq_true _ _ ▸ h).1) ?_ ?_ ?_
    · intro t ht
      rw [ht, Option.isNone_some, Bool.and_false]
    · intro entry hentry
      rw [isTellable, throughout, Bool.and_eq_true] at hfits
      exact of_decide_eq_true ((Option.all_eq_true _ _).mp hfits.1 entry hentry)
    · intro h
      have hends := (hwhole h).2
      rw [endsTicks, throughout, Bool.and_eq_true, Bool.not_eq_true'] at hends
      exact hends.1
  · have hleft {part : World → Duration}
        (h : p.leaves part a [.move m (.update a change)] = true) :
        part (change entry) = part entry := by
      rw [leaves, throughout, Bool.and_eq_true] at h
      have hsame := of_decide_eq_true h.1
      change ((p.apply m (.update a change)).viewOf a).entry.map part = _ at hsame
      rw [hview, hentry] at hsame
      exact Option.some.inj hsame
    have hnone : (p.viewOf a).asks ({ p.viewOf a with entry := some (change entry) } : View) =
        none := View.asks_of_ticker_eq rfl
    rw [hview, View.noteCall_of_none hnone]
    change View.KeepsSpacing _ _ _ _ (saved && (p.viewOf a).ticker.isNone) _
    rw [hv.saved_eq]
    exact hv.update hentry hregression (hleft hmark) fun h => hleft (hwhole h).1

theorem keepsSpacing_meet (hp : p.Coherent) (hw : p.wiring.AsksEvery interval)
    (hv : (p.viewOf a).KeepsSpacing interval whole a saved calls) {i : Incident}
    (hmark : p.leaves (·.weatherSyncedAt) a [i] = true) (hsaved : p.diesSaved a saved [i] = true)
    (hwhole : whole → p.leaves (·.gameTime) a [i] = true ∧ p.endsTicks a [i] = true)
    (hfits : p.isTellable a [i] = true) :
    ((p.meet i).viewOf a).KeepsSpacing interval whole a (p.savedAfter (p.meet i) a saved)
      (p.noteCalls (p.meet i) a calls) := by
  rw [noteCalls_meet hp, savedAfter]
  cases i with
  | move m move =>
    have hmoved := keepsSpacing_move hp hw hv m move hmark hwhole hfits
    split
    · next hok =>
      obtain ⟨stage, hstop⟩ := errand_of_stopping? hok.1
      obtain ⟨f, world, pending, rfl, hstored, hview⟩ :=
        recording_of_stop_ok hstop (errand_of_result? hok.2)
      have herrand := errand_eq_some p hstop rfl
      have hticker := (hp a).ticker_eq_none_of_ne herrand (by rintro ⟨⟩)
      refine { hmoved with marked := ?_ }
      rw [View.noteCall_of_none (View.asks_of_none (.inl hticker))]
      exact hview.symm ▸ hv.marked.saved hticker herrand hstored
    · exact hmoved
  | death wiring projections =>
    have hdies : saved = true := by simpa [diesSaved, Incident.isDeath] using hsaved
    subst hdies
    have hnone : (p.meet (.death wiring projections)).result? = none := rfl
    rw [hnone, if_neg (by rintro ⟨-, ⟨⟩⟩), View.noteCall_of_none (View.asks_of_none (.inr rfl))]
    exact hv.afterDeath

theorem keepsSpacing_live (hp : p.Coherent) (hw : p.wiring.AsksEvery interval)
    (hv : (p.viewOf a).KeepsSpacing interval whole a saved calls) {course : List Incident}
    (hcourse : ∀ i ∈ course, i.AsksEvery interval)
    (hmark : p.leaves (·.weatherSyncedAt) a course = true)
    (hsaved : p.diesSaved a saved course = true)
    (hwhole : whole → p.leaves (·.gameTime) a course = true ∧ p.endsTicks a course = true)
    (hfits : p.isTellable a course = true) :
    ∃ saved', ((p.live course).viewOf a).KeepsSpacing interval whole a saved'
      (p.noteWeather a calls course) := by
  induction course generalizing p saved calls with
  | nil => exact ⟨saved, hv⟩
  | cons i course ih =>
    rw [leaves, throughout_cons, Bool.and_eq_true] at hmark
    rw [isTellable, throughout_cons, Bool.and_eq_true] at hfits
    rw [diesSaved, Bool.and_eq_true] at hsaved
    have hrules (h : whole) : (p.leaves (·.gameTime) a [i] = true ∧ p.endsTicks a [i] = true) ∧
        (p.meet i).leaves (·.gameTime) a course = true ∧ (p.meet i).endsTicks a course = true := by
      obtain ⟨htime, hends⟩ := hwhole h
      rw [leaves, throughout_cons, Bool.and_eq_true] at htime
      rw [endsTicks, throughout_cons, Bool.and_eq_true] at hends
      exact ⟨⟨htime.1, hends.1⟩, htime.2, hends.2⟩
    refine ih (hp.meet i) ?_ ?_ (fun j hj => hcourse j (List.mem_cons_of_mem i hj)) hmark.2
      hsaved.2 (fun h => (hrules h).2) hfits.2
    · cases i with
      | move m move => exact (apply_wiring hp m move).symm ▸ hw
      | death wiring projections => exact hcourse _ List.mem_cons_self
    · refine keepsSpacing_meet hp hw hv hmark.1 ?_ (fun h => (hrules h).1) hfits.1
      rw [diesSaved, hsaved.1, Bool.true_and]
      rfl

/-- Whatever happens to a world that nobody wrote about before, while every process asks for the
weather at the same interval, nobody else writes the mark of the weather, every process dies only
after a stop that was done well, and the world's game time can be told in 64 bits: each call asks
about the game time of the tick that makes it, and none is sooner than an interval after the one
before it. If nobody else moves the clock on either, and no ticker breaks down in a tick that has
not come to its look at the weather, then each call is made by the first tick that passes the
interval, and between ticks the world is less than an interval ahead of its last call. -/
theorem weather_calls_are_spaced {w : Wiring} {interval : Duration} (hw : w.AsksEvery interval)
    {log : EventLog} (projections : Option (Dispatcher ReadModel)) {a : WorldId}
    (hfresh : log.about a = []) {course : List Incident}
    (hcourse : ∀ i ∈ course, i.AsksEvery interval)
    (hmark : (start w log projections).leaves (·.weatherSyncedAt) a course = true)
    (hsaved : (start w log projections).diesSaved a true course = true)
    (hfits : (start w log projections).isTellable a course = true) :
    let p := (start w log projections).live course
    let calls := (start w log projections).weatherLog a course
    0 < interval.nanos ∧ (∀ call ∈ calls, call.IsFaithful) ∧
    WeatherCall.Spaced (WeatherCall.NotBefore interval) calls ∧
    ((start w log projections).leaves (·.gameTime) a course = true →
      (start w log projections).endsTicks a course = true →
      WeatherCall.Spaced (WeatherCall.NotAfter interval) calls ∧
      ∀ entry, p.surroundings.registry.get? a = some entry → (p.viewOf a).tickTime? = none →
        entry.gameTime.nanos < (WeatherCall.last calls).nanos + interval.nanos) := by
  let whole := (start w log projections).leaves (·.gameTime) a course = true ∧
    (start w log projections).endsTicks a course = true
  have hstart : ((start w log projections).viewOf a).KeepsSpacing interval whole a true [] := by
    rw [viewOf_start w projections hfresh]
    exact .nil interval whole a
  obtain ⟨saved, hkept⟩ := keepsSpacing_live (coherent_start w log projections) hw hstart hcourse
    hmark hsaved id hfits
  refine ⟨?_, hkept.faithful, hkept.notBefore, fun htime hends => ?_⟩
  · rw [← hw.interval]
    exact hw.usable.weatherInterval_pos
  · exact ⟨hkept.notAfter ⟨htime, hends⟩, (hkept.paced ⟨htime, hends⟩).rest⟩

/-- A process that publishes and asks for the weather. -/
def asking : Wiring := { Wiring.standard with publishes := true, asksWeather := true }

theorem asksEvery_asking : asking.AsksEvery asking.clock.weatherInterval :=
  ⟨⟨.standard, true, true, rfl⟩, rfl, rfl⟩

/-- A world in which a tick adds so many minutes is spawned, and takes its first turn. -/
def spawnAtPace (world : WorldId) (millis minutes : Nat) : List Incident :=
  [.move (momentAt millis) (.spawn ⟨world, "world", .ofNat (600 * minutes)⟩),
    .move (momentAt millis) (.read none), .move (momentAt millis) .file,
    .move (momentAt millis) (.conclude .answered), .move (momentAt millis) (.poll world)]

/-- It makes a tick, and its process asks for the weather if that is due. -/
def tickAt (world : WorldId) (millis : Nat) (reply : Reply CallError) : List Incident :=
  [.move (momentAt millis) (.poll world), .move (momentAt millis) (.answer world .answered),
    .move (momentAt millis) (.fileFor world),
    .move (momentAt millis) (.concludeFor world .answered),
    .move (momentAt millis) (.answer world reply)]

/-- A resumed world has nothing to make up for, and its clock goes on. -/
def goOnAt (world : WorldId) (millis : Nat) : List Incident :=
  [.move (momentAt millis) (.poll world), .move (momentAt millis) (.poll world),
    .move (momentAt millis) (.fileFor world),
    .move (momentAt millis) (.concludeFor world .answered)]

/-- A process dies while it creates a world. The next one ticks it up to a call, which is not
answered, stops it and spawns it again at another pace. -/
def askedTwice (world : WorldId) : List Incident :=
  [.move (momentAt 0) (.spawn ⟨world, "world", .one⟩), .move (momentAt 0) (.read none),
    .move (momentAt 0) .file, .death asking none,
    .move (momentAt 0) (.spawn ⟨world, "world", .ofNat 12000⟩), .move (momentAt 0) (.read none),
    .move (momentAt 0) (.read none), .move (momentAt 0) .file,
    .move (momentAt 0) (.conclude .answered), .move (momentAt 0) (.poll world)] ++
    goOnAt world 0 ++ tickAt world 100 .answered ++ tickAt world 200 .timedOut ++
    [.move (momentAt 200) (.stop world), .move (momentAt 200) (.poll world),
      .move (momentAt 200) .join, .move (momentAt 200) .file,
      .move (momentAt 200) (.conclude .answered)] ++
    spawnAtPace world 200 40 ++ goOnAt world 200 ++ tickAt world 300 .answered

theorem asksEvery_askedTwice (world : WorldId) :
    ∀ i ∈ askedTwice world, i.AsksEvery asking.clock.weatherInterval := by
  simp [askedTwice, spawnAtPace, goOnAt, tickAt, Incident.AsksEvery, asksEvery_asking]

theorem weather_calls_are_spaced_of_askedTwice :
    ((start asking .empty none).weatherLog ⟨⟨0⟩⟩ (askedTwice ⟨⟨0⟩⟩)).map
        (fun call => (call.gameTime.nanos, call.delta.nanos)) =
      [(4800000000000, 2400000000000), (2400000000000, 1200000000000)] ∧
    WeatherCall.Spaced (WeatherCall.NotBefore asking.clock.weatherInterval)
      ((start asking .empty none).weatherLog ⟨⟨0⟩⟩ (askedTwice ⟨⟨0⟩⟩)) ∧
    WeatherCall.Spaced (WeatherCall.NotAfter asking.clock.weatherInterval)
      ((start asking .empty none).weatherLog ⟨⟨0⟩⟩ (askedTwice ⟨⟨0⟩⟩)) := by
  -- One computation, so that the world is restored only once.
  have hchecked : (start asking .empty none).leaves (·.weatherSyncedAt) ⟨⟨0⟩⟩
        (askedTwice ⟨⟨0⟩⟩) = true ∧
      (start asking .empty none).diesSaved ⟨⟨0⟩⟩ true (askedTwice ⟨⟨0⟩⟩) = true ∧
      (start asking .empty none).isTellable ⟨⟨0⟩⟩ (askedTwice ⟨⟨0⟩⟩) = true ∧
      (start asking .empty none).leaves (·.gameTime) ⟨⟨0⟩⟩ (askedTwice ⟨⟨0⟩⟩) = true ∧
      (start asking .empty none).endsTicks ⟨⟨0⟩⟩ (askedTwice ⟨⟨0⟩⟩) = true ∧
      ((start asking .empty none).weatherLog ⟨⟨0⟩⟩ (askedTwice ⟨⟨0⟩⟩)).map
        (fun call => (call.gameTime.nanos, call.delta.nanos)) =
          [(4800000000000, 2400000000000), (2400000000000, 1200000000000)] := by
    decide +kernel
  obtain ⟨hmark, hsaved, hfits, htime, hends, htwo⟩ := hchecked
  have hfresh : EventLog.empty.about ⟨⟨0⟩⟩ = [] := rfl
  obtain ⟨-, -, hnotBefore, hbounds⟩ := weather_calls_are_spaced asksEvery_asking none
    hfresh (asksEvery_askedTwice ⟨⟨0⟩⟩) hmark hsaved hfits
  exact ⟨htwo, hnotBefore, (hbounds htime hends).1⟩

/-- Someone else moves the clock on by two hours before the first tick. -/
def hurried (world : WorldId) : List Incident :=
  spawnAtPace world 0 40 ++
    [.move (momentAt 50) (.update world fun entry =>
      { entry with gameTime := .ofNanos (7200 * nanosPerSecond) })] ++
    tickAt world 100 .answered

/-- The ticker breaks down while it publishes its first tick. It is stopped, and the world is
spawned again. -/
def brokenOff (world : WorldId) : List Incident :=
  spawnAtPace world 0 40 ++
    [.move (momentAt 100) (.poll world), .move (momentAt 100) (.crash world "publish panicked"),
      .move (momentAt 100) (.stop world), .move (momentAt 100) .join,
      .move (momentAt 100) (.read none), .move (momentAt 100) .file,
      .move (momentAt 100) (.conclude .answered)] ++
    spawnAtPace world 100 40 ++ goOnAt world 100 ++ tickAt world 200 .answered

/-- A clock that someone else has moved on, and a tick that broke off before its look at the
weather, make the next call late, though nobody else has written the mark and nothing died. -/
theorem late_calls :
    ((∀ i ∈ hurried ⟨⟨0⟩⟩, i.AsksEvery asking.clock.weatherInterval ∧ i.isDeath = false) ∧
      (start asking .empty none).leaves (·.weatherSyncedAt) ⟨⟨0⟩⟩ (hurried ⟨⟨0⟩⟩) = true ∧
      (start asking .empty none).isTellable ⟨⟨0⟩⟩ (hurried ⟨⟨0⟩⟩) = true ∧
      ¬ WeatherCall.Spaced (WeatherCall.NotAfter asking.clock.weatherInterval)
        ((start asking .empty none).weatherLog ⟨⟨0⟩⟩ (hurried ⟨⟨0⟩⟩))) ∧
    (∀ i ∈ brokenOff ⟨⟨0⟩⟩, i.AsksEvery asking.clock.weatherInterval ∧ i.isDeath = false) ∧
      (start asking .empty none).leaves (·.weatherSyncedAt) ⟨⟨0⟩⟩ (brokenOff ⟨⟨0⟩⟩) = true ∧
      (start asking .empty none).isTellable ⟨⟨0⟩⟩ (brokenOff ⟨⟨0⟩⟩) = true ∧
      ¬ WeatherCall.Spaced (WeatherCall.NotAfter asking.clock.weatherInterval)
        ((start asking .empty none).weatherLog ⟨⟨0⟩⟩ (brokenOff ⟨⟨0⟩⟩)) := by
  refine ⟨⟨?_, by decide +kernel⟩, ?_, by decide +kernel⟩
  · simp [hurried, spawnAtPace, tickAt, Incident.AsksEvery, Incident.isDeath]
  · simp [brokenOff, spawnAtPace, goOnAt, tickAt, Incident.AsksEvery, Incident.isDeath]

end Manager

end WorldClock
