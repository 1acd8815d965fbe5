import WorldClock.Proofs.Manager.SoleWriter

/-!
# Observing one world

Whoever observes one world sees its view before and after each incident of a course and may note
something each time (`Manager.observe`), and a course may be required to do nothing wrong with a
world on its way (`Manager.throughout`). What deaths and the steps of a view keep of the view
and of the notes then holds at the end of every course (`Manager.observe_keeps`).

Most of what is observed here are appends. A world has at most one append under way, that of its
ticker or else of its errand (`View.filing?`), and its history grows only by the event of that
append.
-/

namespace WorldClock

/-- The log has taken the event of an append. -/
def Filing.isStored (f : Filing) : Bool :=
  match f.verdict with
  | some (.ok ()) => true
  | _ => false

theorem Filing.isStored_iff {f : Filing} : f.isStored = true ↔ f.verdict = some (.ok ()) := by
  obtain ⟨e, verdict⟩ := f
  match verdict with
  | none => exact ⟨by rintro ⟨⟩, by rintro ⟨⟩⟩
  | some (.ok ()) => exact ⟨fun _ => rfl, fun _ => rfl⟩
  | some (.error error) => exact ⟨by rintro ⟨⟩, by rintro ⟨⟩⟩

namespace View

/-- The append about a world that is under way. -/
def filing? (v : View) : Option Filing :=
  match v.ticker with
  | some t => t.filing?
  | none => v.errand.bind Errand.filing?

def isBroken (v : View) : Bool := v.ticker.any fun t => t.phase.isCrashed

/-- An append is over and the log has not taken its event, though no ticker broke down over it. -/
def loses (v v' : View) : Bool :=
  match v.filing?, v'.filing? with
  | some f, none => !f.isStored && !v'.isBroken
  | _, _ => false

variable {w : Wiring} {m : Moment} {a : WorldId} {v v' : View}

theorem filing?_of_ticker {t : Ticker} (hticker : v.ticker = some t) : v.filing? = t.filing? := by
  rw [filing?, hticker]

theorem filing?_of_errand {errand : Errand} (hticker : v.ticker = none)
    (herrand : v.errand = some errand) : v.filing? = errand.filing? := by
  rw [filing?, hticker, herrand, Option.bind_some]

theorem filing?_onErrand (hticker : v.ticker = none) {entry : Option World} {errand : Errand}
    {events : List Event} :
    (View.mk entry v.ticker (some errand) events).filing? = errand.filing? :=
  filing?_of_errand (v := View.mk entry v.ticker (some errand) events) hticker rfl

theorem filing?_of_idle (hticker : v.ticker = none) (herrand : v.errand = none) :
    v.filing? = none := by
  rw [filing?, hticker, herrand, Option.bind_none]

theorem isStored_of_loses {f : Filing} (h : v.loses v' = false) (hbefore : v.filing? = some f)
    (hafter : v'.filing? = none) (hsound : v'.isBroken = false) : f.verdict = some (.ok ()) := by
  rw [← Filing.isStored_iff]
  simpa [loses, hbefore, hafter, hsound] using h

/-- All that is kept of the view of a world while nobody else writes about it. -/
structure IsSound (w : Wiring) (a : WorldId) (v : View) : Prop where
  usable : w.IsUsable
  coherent : v.Coherent w a
  chronicled : v.Chronicled a
  attuned : v.Attuned a

theorem Step.isSound (h : v.Step w m a v') (hv : v.IsSound w a) : v'.IsSound w a where
  usable := hv.usable
  coherent := h.coherent hv.coherent
  chronicled := h.chronicled hv.coherent hv.chronicled
  attuned := h.attuned hv.coherent hv.attuned

theorem IsSound.afterDeath (hv : v.IsSound w a) {w' : Wiring} (hw : w'.IsUsable) :
    v.afterDeath.IsSound w' a where
  usable := hw
  coherent := ⟨by rintro e ⟨⟩, by rintro t ⟨⟩, by rintro e ⟨⟩⟩
  chronicled := chronicled_afterDeath hv.chronicled
  attuned := attuned_afterDeath v

/-- The event of the append under way is a record, and no event of the history is ahead of it. -/
theorem Chronicled.filing (hchron : v.Chronicled a) {f : Filing} (hfiling : v.filing? = some f) :
    (∀ e ∈ v.events, e.version ≤ f.event.version) ∧ f.event.IsRecord a := by
  rw [filing?] at hfiling
  split at hfiling
  · next t hticker =>
    obtain ⟨hahead, hfilings⟩ := hchron.ticker t hticker
    obtain ⟨hversion, hrecord⟩ := hfilings f hfiling
    exact ⟨fun e he => hversion ▸ hahead e he, hrecord⟩
  · next hticker =>
    obtain ⟨errand, herrand, hf⟩ := Option.bind_eq_some_iff.mp hfiling
    exact hchron.errand errand f herrand hf

theorem IsSound.filing (hv : v.IsSound w a) {f : Filing} (hfiling : v.filing? = some f) :
    (∀ e ∈ v.events, e.version ≤ f.event.version) ∧ f.event.IsRecord a :=
  hv.chronicled.filing hfiling

/-- A history changes only when the log sees the append under way; the entry stays as it is
then. -/
theorem Step.events_cases (h : v.Step w m a v') (hc : v.Coherent w a) : v'.events = v.events ∨
    ∃ f f', v.filing? = some f ∧ v'.filing? = some f' ∧ f.Files v.events f' v'.events ∧
      v'.entry = v.entry := by
  cases h with
  | fileCreation herrand hfiles | fileAnnouncement herrand hfiles =>
    have hticker := hc.ticker_eq_none herrand
    exact .inr ⟨_, _, filing?_of_errand hticker herrand,
      filing?_onErrand hticker, hfiles, rfl⟩
  | filePause herrand hfiles =>
    have hticker := hc.ticker_eq_none_of_ne herrand (by rintro ⟨⟩)
    exact .inr ⟨_, _, filing?_of_errand hticker herrand,
      filing?_onErrand hticker, hfiles, rfl⟩
  | fileTick hticker hphase hfiles | fileResumption hticker hphase hfiles =>
    refine .inr ⟨_, _, (filing?_of_ticker hticker).trans ?_, (filing?_of_ticker rfl).trans rfl,
      hfiles, rfl⟩
    rw [Ticker.filing?, hphase]
  | _ => exact .inl rfl

end View

namespace Manager

theorem viewOf_start (w : Wiring) {log : EventLog} (projections : Option (Dispatcher ReadModel))
    {a : WorldId} (hfresh : log.about a = []) :
    (start w log projections).viewOf a = ⟨none, none, none, []⟩ := by
  change View.mk none none none (log.about a) = _
  rw [hfresh]

theorem isSound_start {w : Wiring} (hw : w.IsUsable) {log : EventLog}
    (projections : Option (Dispatcher ReadModel)) {a : WorldId} (hfresh : log.about a = []) :
    ((start w log projections).viewOf a).IsSound w a where
  usable := hw
  coherent := coherent_start w log projections a
  chronicled := viewOf_start w projections hfresh ▸ View.chronicled_nil a
  attuned := viewOf_start w projections hfresh ▸ View.attuned_afterDeath ⟨none, none, none, []⟩

theorem isSound_meet {p : Manager} (hp : p.Coherent) {a : WorldId}
    (hsound : (p.viewOf a).IsSound p.wiring a) {i : Incident} (hown : i.IsOwn) :
    ((p.meet i).viewOf a).IsSound (p.meet i).wiring a := by
  cases i with
  | move m move =>
    have hwiring : (p.meet (.move m move)).wiring = p.wiring := apply_wiring hp m move
    rw [hwiring]
    obtain heq | hsteps := apply_step hp m hown a
    · exact heq.symm ▸ hsound
    · exact hsteps.isSound hsound
  | death wiring projections => exact hsound.afterDeath hown

/-- What an observer of a world has noted at the end of a course, who looks at the view of the world
before and after each incident. -/
def observe {σ : Type} (p : Manager) (a : WorldId) (look : View → Incident → View → σ → σ)
    (noted : σ) : List Incident → σ
  | [] => noted
  | i :: course =>
    (p.meet i).observe a look (look (p.viewOf a) i ((p.meet i).viewOf a) noted) course

/-- Whether every incident of a course keeps to a rule about a world. -/
def throughout (p : Manager) (a : WorldId) (rule : View → Incident → View → Bool) :
    List Incident → Bool
  | [] => true
  | i :: course =>
    rule (p.viewOf a) i ((p.meet i).viewOf a) && (p.meet i).throughout a rule course

theorem throughout_cons (p : Manager) (a : WorldId) (rule : View → Incident → View → Bool)
    (i : Incident) (course : List Incident) : p.throughout a rule (i :: course) =
      (p.throughout a rule [i] && (p.meet i).throughout a rule course) := by
  rw [throughout, throughout, throughout, Bool.and_true]

theorem throughout_true (p : Manager) (a : WorldId) (course : List Incident) :
    p.throughout a (fun _ _ _ => true) course = true := by
  induction course generalizing p with
  | nil => rfl
  | cons i course ih => rw [throughout, Bool.true_and, ih]

/-- What deaths and steps that keep to a rule keep, of the view of a world and of what is noted of
it, holds at the end of every course that keeps to the rule. -/
theorem observe_keeps {σ : Type} {a : WorldId} (rule : View → Incident → View → Bool)
    (look : View → Incident → View → σ → σ) (Keeps : Wiring → View → σ → Prop)
    (hstay : ∀ w m move v noted, v.IsSound w a → rule v (.move m move) v = true →
      Keeps w v noted → Keeps w v (look v (.move m move) v noted))
    (hstep : ∀ w m move v v' noted, v.IsSound w a → rule v (.move m move) v' = true →
      v.Step w m a v' → Keeps w v noted → Keeps w v' (look v (.move m move) v' noted))
    (hdeath : ∀ w w' projections v noted, v.IsSound w a → w'.IsUsable →
      rule v (.death w' projections) v.afterDeath = true → Keeps w v noted →
      Keeps w' v.afterDeath (look v (.death w' projections) v.afterDeath noted))
    {p : Manager} (hp : p.Coherent) (hsound : (p.viewOf a).IsSound p.wiring a)
    {course : List Incident} (hown : ∀ i ∈ course, i.IsOwn)
    (hrule : p.throughout a rule course = true) (noted : σ)
    (hkeeps : Keeps p.wiring (p.viewOf a) noted) :
    ((p.live course).viewOf a).IsSound (p.live course).wiring a ∧
      Keeps (p.live course).wiring ((p.live course).viewOf a)
        (p.observe a look noted course) := by
  induction course generalizing p noted with
  | nil => exact ⟨hsound, hkeeps⟩
  | cons i course ih =>
    have hi : i.IsOwn := hown i List.mem_cons_self
    rw [throughout, Bool.and_eq_true] at hrule
    obtain ⟨hfirst, hrest⟩ := hrule
    refine ih (hp.meet i) (isSound_meet hp hsound hi)
      (fun j hj => hown j (List.mem_cons_of_mem _ hj)) hrest _ ?_
    cases i with
    | move m move =>
      have hwiring : (p.meet (.move m move)).wiring = p.wiring := apply_wiring hp m move
      rw [hwiring]
      obtain heq | hsteps := apply_step hp m hi a
      · have hview : (p.meet (.move m move)).viewOf a = p.viewOf a := heq
        rw [hview] at hfirst ⊢
        exact hstay _ _ _ _ _ hsound hfirst hkeeps
      · exact hstep _ _ _ _ _ _ hsound hfirst hsteps hkeeps
    | death wiring projections => exact hdeath _ _ _ _ _ hsound hi hfirst hkeeps

/-- What every death and every step of a view keep holds at the end of every course. -/
theorem live_keeps_sound {a : WorldId} (Keeps : View → Prop)
    (hstep : ∀ w m v v', v.IsSound w a → v.Step w m a v' → Keeps v → Keeps v')
    (hdeath : ∀ v, Keeps v → Keeps v.afterDeath) {p : Manager} (hp : p.Coherent)
    (hsound : (p.viewOf a).IsSound p.wiring a) {course : List Incident}
    (hown : ∀ i ∈ course, i.IsOwn) (hkeeps : Keeps (p.viewOf a)) :
    ((p.live course).viewOf a).IsSound (p.live course).wiring a ∧
      Keeps ((p.live course).viewOf a) :=
  observe_keeps (fun _ _ _ => true) (fun _ _ _ noted => noted) (fun _ v (_ : Unit) => Keeps v)
    (fun _ _ _ _ _ _ _ hkeeps => hkeeps)
    (fun w m _ v v' _ hv _ hsteps hkeeps => hstep w m v v' hv hsteps hkeeps)
    (fun _ _ _ v _ _ _ _ hkeeps => hdeath v hkeeps) hp hsound hown (throughout_true p a course)
    () hkeeps

theorem isSound_live {w : Wiring} (hw : w.IsUsable) {log : EventLog}
    (projections : Option (Dispatcher ReadModel)) {a : WorldId} (hfresh : log.about a = [])
    {course : List Incident} (hown : ∀ i ∈ course, i.IsOwn) :
    (((start w log projections).live course).viewOf a).IsSound
      ((start w log projections).live course).wiring a :=
  (live_keeps_sound (fun _ => True) (fun _ _ _ _ _ _ _ => trivial) (fun _ _ => trivial)
    (coherent_start w log projections) (isSound_start hw projections hfresh) hown trivial).1

end Manager

end WorldClock
