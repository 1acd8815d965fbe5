import WorldClock.Proofs.Manager.Moves

/-!
# Courses of processes

A course is everything that happens to a line of processes over one log: moves, and deaths, after
which a new process starts with the log and nothing else. What is kept by every step of a view and
by every death holds after every course (`Manager.live_keeps`).
-/

namespace WorldClock

/-- Something that happens to a line of processes over one log. -/
inductive Incident where
  | move (m : Moment) (move : Move)
  /-- The process dies, and another one takes over. -/
  | death (wiring : Wiring) (projections : Option (Dispatcher ReadModel))

/-- A wiring with which a process starts. -/
def Wiring.IsUsable (w : Wiring) : Prop :=
  ∃ clock publishes asksWeather, Manager.wiring? clock publishes asksWeather = .ok w

/-- Nobody but the processes writes, and every process starts as a process does. -/
def Incident.IsOwn : Incident → Prop
  | .move _ step => step.isOwn = true
  | .death wiring _ => wiring.IsUsable

def Incident.wall? : Incident → Option Instant
  | .move m _ => some m.wall
  | .death _ _ => none

def walls (course : List Incident) : List Instant := course.filterMap Incident.wall?

/-- The wall clock never goes back. -/
def InOrder (course : List Incident) : Prop := (walls course).Pairwise (· ≤ ·)

instance (course : List Incident) : Decidable (InOrder course) :=
  inferInstanceAs (Decidable ((walls course).Pairwise (· ≤ ·)))

theorem ClockSettings.pos_of_zeroSetting? {clock : ClockSettings} (h : clock.zeroSetting? = none)
    {name : String} {value : Count} (hmem : (name, value) ∈ clock.positiveSettings) :
    0 < value.toNat := by
  have hfind := List.find?_eq_none.mp (Option.map_eq_none_iff.mp h) (name, value) hmem
  refine Nat.pos_of_ne_zero fun hzero => ?_
  have hnone : value = 0 := UInt64.toNat_inj.mp hzero
  simp [hnone] at hfind

theorem ClockSettings.le_tickInterval {clock : ClockSettings} (h : clock.zeroSetting? = none) :
    nanosPerMilli ≤ clock.tickInterval.nanos := by
  have hmem : ("tick_interval_ms", clock.tickIntervalMillis) ∈ clock.positiveSettings := by
    simp [positiveSettings]
  have hmillis := pos_of_zeroSetting? h hmem
  have hproduct := Nat.le_mul_of_pos_left nanosPerMilli hmillis
  rw [tickInterval, Duration.ofMillis, Duration.nanos_ofNanos]
  exact Nat.le_min.mpr ⟨hproduct, by decide⟩

theorem ClockSettings.secondsTimes_pos {n : Count} (hn : 0 < n.toNat) {seconds : Nat}
    (hseconds : 0 < seconds) : 0 < (secondsTimes n seconds).nanos := by
  have hproduct := Nat.mul_pos hn hseconds
  rw [secondsTimes, Duration.ofSeconds, Duration.nanos_ofNanos, Count.toNat_ofNat]
  have hcount : 0 < min (n.toNat * seconds) Count.greatest :=
    Nat.lt_min.mpr ⟨hproduct, by decide⟩
  exact Nat.lt_min.mpr ⟨Nat.mul_pos hcount (by decide), by decide⟩

/-- Clock settings without a zero have a calendar. -/
theorem ClockSettings.calendar_eq_ok {clock : ClockSettings} (h : clock.zeroSetting? = none) :
    ∃ calendar, clock.calendar = .ok calendar := by
  have hdays : ("day_length_hours", clock.dayHours) ∈ clock.positiveSettings := by
    simp [positiveSettings]
  have hseasons : ("season_length_days", clock.seasonDays) ∈ clock.positiveSettings := by
    simp [positiveSettings]
  have hday : 0 < clock.dayLength.nanos :=
    secondsTimes_pos (pos_of_zeroSetting? h hdays) (by decide)
  have hseason : 0 < clock.seasonLength.nanos :=
    secondsTimes_pos (pos_of_zeroSetting? h hseasons) (by decide)
  refine ⟨⟨clock.dayLength, clock.seasonLength, hday, hseason⟩, ?_⟩
  rw [calendar, Calendar.ofLengths, dif_pos hday, dif_pos hseason]

theorem Manager.wiring?_eq_ok {clock : ClockSettings} (h : clock.zeroSetting? = none)
    (publishes asksWeather : Bool) :
    ∃ w : Wiring, w.clock = clock ∧ Manager.wiring? clock publishes asksWeather = .ok w := by
  obtain ⟨calendar, hcalendar⟩ := ClockSettings.calendar_eq_ok h
  refine ⟨⟨clock, calendar, publishes, asksWeather⟩, rfl, ?_⟩
  rw [Manager.wiring?, ClockSettings.fault?, h, hcalendar]
  rfl

theorem Wiring.IsUsable.zeroSetting?_eq_none {w : Wiring} (h : w.IsUsable) :
    w.clock.zeroSetting? = none := by
  obtain ⟨clock, publishes, asksWeather, hw⟩ := h
  rw [Manager.wiring?] at hw
  split at hw
  · cases hw
  · cases hw
  · next hfault _ =>
    cases hw
    exact Option.map_eq_none_iff.mp hfault

theorem Wiring.IsUsable.le_tickInterval {w : Wiring} (h : w.IsUsable) :
    nanosPerMilli ≤ w.clock.tickInterval.nanos :=
  ClockSettings.le_tickInterval h.zeroSetting?_eq_none

theorem Wiring.IsUsable.weatherInterval_pos {w : Wiring} (h : w.IsUsable) :
    0 < w.clock.weatherInterval.nanos := by
  have hminutes : ("weather_interval_minutes", w.clock.weatherMinutes) ∈
      w.clock.positiveSettings := by
    simp [ClockSettings.positiveSettings]
  exact ClockSettings.secondsTimes_pos
    (ClockSettings.pos_of_zeroSetting? h.zeroSetting?_eq_none hminutes) (by decide)

/-- A process with the standard settings that publishes nothing and asks for no weather. -/
def Wiring.standard : Wiring :=
  ⟨.standard, ⟨ClockSettings.standard.dayLength, ClockSettings.standard.seasonLength, by decide,
    by decide⟩, false, false⟩

theorem Wiring.isUsable_standard : Wiring.standard.IsUsable :=
  ⟨.standard, false, false, rfl⟩

namespace Manager

def meet (p : Manager) : Incident → Manager
  | .move m move => p.apply m move
  | .death wiring projections => start wiring p.surroundings.log projections

def live (p : Manager) (course : List Incident) : Manager := course.foldl meet p

theorem live_run (p : Manager) (moves : List (Moment × Move)) :
    p.run moves = p.live (moves.map fun (m, move) => .move m move) := by
  rw [live, run, List.foldl_map]
  rfl

/-- A moment so many milliseconds after 1970, in a process that started then. -/
def momentAt (millis : Nat) : Moment :=
  ⟨.clamp (millis * nanosPerMilli : Nat), millis * nanosPerMilli⟩

/-- A world is created, ticks once and is stopped. -/
def pausedOnce (world : WorldId) : List (Moment × Move) :=
  [(momentAt 0, .spawn ⟨world, "world", .one⟩), (momentAt 0, .read none), (momentAt 0, .file),
    (momentAt 0, .conclude .answered), (momentAt 0, .poll world), (momentAt 100, .poll world),
    (momentAt 100, .fileFor world), (momentAt 100, .concludeFor world .answered),
    (momentAt 120, .stop world), (momentAt 120, .poll world), (momentAt 120, .join),
    (momentAt 120, .file), (momentAt 120, .conclude .answered)]

/-- It is resumed and owes two ticks, makes one of them and is stopped. The pause is on its way to
the log. -/
def resumedOnce (world : WorldId) : List (Moment × Move) :=
  [(momentAt 350, .spawn ⟨world, "world", .one⟩), (momentAt 350, .read none), (momentAt 350, .file),
    (momentAt 350, .conclude .answered), (momentAt 350, .poll world), (momentAt 350, .poll world),
    (momentAt 360, .fileFor world), (momentAt 360, .concludeFor world .answered),
    (momentAt 370, .stop world), (momentAt 370, .poll world), (momentAt 370, .poll world),
    (momentAt 370, .join), (momentAt 370, .file)]

def interruptedOnce (world : WorldId) : List Incident :=
  (pausedOnce world ++ resumedOnce world).map fun (m, move) => .move m move

theorem isOwn_interruptedOnce (world : WorldId) : ∀ i ∈ interruptedOnce world, i.IsOwn := by
  simp [interruptedOnce, pausedOnce, resumedOnce, Incident.IsOwn, Move.isOwn]

end Manager

/-- What is left of a view when the process dies. -/
def View.afterDeath (v : View) : View := ⟨none, none, none, v.events⟩

namespace Manager

theorem Coherent.meet {p : Manager} (hp : p.Coherent) (i : Incident) : (p.meet i).Coherent := by
  cases i with
  | move m move => exact hp.apply m move
  | death wiring projections => exact coherent_start wiring _ projections

theorem Coherent.live {p : Manager} (hp : p.Coherent) (course : List Incident) :
    (p.live course).Coherent := by
  induction course generalizing p with
  | nil => exact hp
  | cons i course ih => exact ih (hp.meet i)

theorem Coherent.run {p : Manager} (hp : p.Coherent) (moves : List (Moment × Move)) :
    (p.run moves).Coherent := by
  rw [live_run]
  exact hp.live _

theorem run_wiring {p : Manager} (hp : p.Coherent) (moves : List (Moment × Move)) :
    (p.run moves).wiring = p.wiring := by
  induction moves generalizing p with
  | nil => rfl
  | cons step moves ih => exact (ih (hp.apply step.1 step.2)).trans (apply_wiring hp _ _)

theorem isUsable_meet {p : Manager} (hp : p.Coherent) (hw : p.wiring.IsUsable) {i : Incident}
    (hown : i.IsOwn) : (p.meet i).wiring.IsUsable := by
  cases i with
  | move m move =>
    change (p.apply m move).wiring.IsUsable
    rwa [apply_wiring hp]
  | death wiring projections => exact hown

theorem isUsable_live {p : Manager} (hp : p.Coherent) (hw : p.wiring.IsUsable)
    {course : List Incident} (hown : ∀ i ∈ course, i.IsOwn) : (p.live course).wiring.IsUsable := by
  induction course generalizing p with
  | nil => exact hw
  | cons i course ih =>
    have hi : i.IsOwn := hown i List.mem_cons_self
    exact ih (hp.meet i) (isUsable_meet hp hw hi) fun j hj => hown j (List.mem_cons_of_mem _ hj)

/-- A property of a view that every step and every death keeps holds after every course of a line of
processes that nobody else interferes with. -/
theorem live_keeps (Keeps : View → Prop) {a : WorldId}
    (hstep : ∀ w m v v', w.IsUsable → v.Coherent w a → Keeps v → v.Step w m a v' → Keeps v')
    (hdeath : ∀ v, Keeps v → Keeps v.afterDeath) {p : Manager} (hp : p.Coherent)
    (hw : p.wiring.IsUsable) (hkeeps : Keeps (p.viewOf a)) {course : List Incident}
    (hown : ∀ i ∈ course, i.IsOwn) : Keeps ((p.live course).viewOf a) := by
  induction course generalizing p with
  | nil => exact hkeeps
  | cons i course ih =>
    have hi : i.IsOwn := hown i (by simp)
    refine ih (hp.meet i) (isUsable_meet hp hw hi) ?_ fun j hj => hown j (by simp [hj])
    cases i with
    | move m move =>
      obtain heq | hsteps := apply_step hp m hi a
      · exact heq ▸ hkeeps
      · exact hstep _ m _ _ hw (hp a) hkeeps hsteps
    | death wiring projections => exact hdeath _ hkeeps

end Manager

end WorldClock
