import WorldClock.Proofs.Manager.Steps

/-!
# What a move does to each world

Every move concerns one world at most. It does to the view of that world nothing or one of the steps
of `View.Step`, and nothing to the views of all other worlds. The one exception is an update of the
registry from outside, which changes the entry of its world and nothing else.
-/

namespace WorldClock

def View.StaysOrSteps (w : Wiring) (m : Moment) (a : WorldId) (v v' : View) : Prop :=
  v' = v ∨ v.Step w m a v'

namespace Manager

def Coherent (p : Manager) : Prop := ∀ a, (p.viewOf a).Coherent p.wiring a

/-- One process comes from another by doing to one world nothing or one step, and to no other world
anything. -/
structure ActsOn (p : Manager) (m : Moment) (b : WorldId) (p' : Manager) : Prop where
  wiring : p'.wiring = p.wiring
  view : (p.viewOf b).StaysOrSteps p.wiring m b (p'.viewOf b)
  others : ∀ a, a ≠ b → p'.viewOf a = p.viewOf a

/-- No errand is under way but for one world. -/
def AsksOnly (p : Manager) (b : WorldId) : Prop := ∀ a, a ≠ b → (p.viewOf a).errand = none

variable {p : Manager} {m : Moment} {b : WorldId}

theorem actsOn_refl (p : Manager) (m : Moment) (b : WorldId) : p.ActsOn m b p :=
  ⟨rfl, .inl rfl, fun _ _ => rfl⟩

theorem asksOnly_of_not_isBusy (h : p.isBusy = false) (b : WorldId) : p.AsksOnly b :=
  fun a _ => errand_eq_none_of_not_isBusy p a h

theorem asksOnly_of_errand {errand : Errand} (herrand : p.errand = some errand)
    (hworld : errand.world? = some b) : p.AsksOnly b :=
  fun a hne => errand_eq_none p a herrand hworld hne

/-- An errand goes on, after the parts of the process that concern its world have changed. -/
theorem actsOn_of_views {p' : Manager} (hwiring : p'.wiring = p.wiring) (hasks : p.AsksOnly b)
    (hview : (p.viewOf b).StaysOrSteps p.wiring m b (p'.viewOf b))
    (hothers : ∀ a, a ≠ b → p'.viewOf a = { p.viewOf a with errand := none }) :
    p.ActsOn m b p' :=
  ⟨hwiring, hview, fun a hne => by rw [hothers a hne, viewOf_eq_self (hasks a hne)]⟩

theorem actsOn_spawnAt {order : SpawnOrder} {stage : SpawnStage} (hworld : order.world = b)
    (hasks : p.AsksOnly b)
    (hstep : (p.viewOf b).Step p.wiring m b
      { p.viewOf b with errand := some (.spawn order stage) }) :
    p.ActsOn m b (p.spawnAt order stage) := by
  refine actsOn_of_views rfl hasks (.inr ?_) fun a hne => ?_
  · rw [viewOf_spawnAt, if_pos hworld]
    exact hstep
  · rw [viewOf_spawnAt, if_neg fun heq => hne (heq.symm.trans hworld)]

theorem actsOn_refuse (hasks : p.AsksOnly b) (hnone : (p.viewOf b).errand = none)
    (result : Except ManagerError Unit) : p.ActsOn m b (p.finish result) := by
  refine actsOn_of_views rfl hasks (.inl ?_) fun a _ => viewOf_finish p a result
  rw [viewOf_finish, viewOf_eq_self hnone]

theorem actsOn_giveUp {errand : Errand} (herrand : p.errand = some errand)
    (hworld : errand.world? = some b) (hjoining : errand ≠ .stop b .joining)
    (result : Except ManagerError Unit) : p.ActsOn m b (p.finish result) := by
  refine actsOn_of_views rfl (asksOnly_of_errand herrand hworld) (.inr ?_)
    fun a _ => viewOf_finish p a result
  rw [viewOf_finish]
  exact .giveUp (errand_eq_some p herrand hworld) hjoining

/-! ### Spawning -/

theorem ticker_eq_none (hp : p.Coherent) (hidle : (p.viewOf b).errand = none)
    (hactive : p.isActive b = false) : (p.viewOf b).ticker = none := by
  cases hticker : p.tickers.get? b with
  | none => exact hticker
  | some t =>
    obtain ⟨-, -, -, ⟨-, hstop⟩ | ⟨hjoin, -⟩⟩ := (hp b).ticker t hticker
    · simp [isActive, hticker, hstop] at hactive
    · simp [hidle] at hjoin

theorem apply_spawn_of_unknown {order : SpawnOrder} (hidle : p.isBusy = false)
    (hticker : p.tickers.get? order.world = none)
    (hentry : p.surroundings.registry.get? order.world = none)
    (haccepted : order.IsAccepted p.wiring) :
    p.apply m (.spawn order) = p.spawnAt order .readingHistory := by
  rw [SpawnOrder.IsAccepted, ← Option.not_isNone, Bool.not_eq_true'] at haccepted
  rw [apply, hidle, if_neg Bool.false_ne_true, beginSpawn, isActive, hticker, hentry]
  simp only [haccepted, Bool.false_eq_true, if_false]

theorem beginSpawn_actsOn (hp : p.Coherent) (order : SpawnOrder) (hbusy : p.isBusy = false) :
    p.ActsOn m order.world (p.beginSpawn order) := by
  have hasks := asksOnly_of_not_isBusy hbusy order.world
  have hidle := errand_eq_none_of_not_isBusy p order.world hbusy
  rw [beginSpawn]
  split
  · exact actsOn_refuse hasks hidle _
  next hactive =>
  have hticker := ticker_eq_none hp hidle (by simpa using hactive)
  split
  · exact actsOn_refuse hasks hidle _
  next haccepted =>
  have haccepted : order.IsAccepted p.wiring := by
    simpa [SpawnOrder.IsAccepted, Option.isSome_iff_ne_none] using haccepted
  split
  · next known hentry =>
    rw [resume]
    split
    · exact actsOn_refuse hasks hidle _
    · next hstatus =>
      exact actsOn_spawnAt rfl hasks (.askKnown rfl hidle hticker hentry haccepted hstatus)
  · next hentry =>
    exact actsOn_spawnAt rfl hasks (.askUnknown rfl hidle hticker hentry haccepted)

theorem restoreFrom_actsOn (hp : p.Coherent) {order : SpawnOrder}
    (herrand : p.errand = some (.spawn order .readingHistory)) :
    p.ActsOn m order.world
      (p.restoreFrom m order (p.surroundings.log.byAggregate order.world.text 1)) := by
  have hasks : p.AsksOnly order.world := asksOnly_of_errand herrand rfl
  have hview := errand_eq_some p herrand rfl
  obtain ⟨-, -, -, hentry⟩ := (hp order.world).errand _ hview
  rw [restoreFrom, EventLog.byAggregate_eq_historyOf]
  split
  · exact actsOn_giveUp herrand rfl (by rintro ⟨⟩) _
  · next hhistory => exact actsOn_spawnAt rfl hasks (.create hview hhistory)
  · next world count hhistory =>
    obtain ⟨t, rfl, hworld⟩ := restore_eq_some hhistory
    have hregister : p.surroundings.registry.register t.toWorld =
        .ok ⟨p.surroundings.registry.table.set order.world t.toWorld⟩ := by
      rw [← hworld] at hentry ⊢
      exact Registry.register_eq hentry
    have hstatus : t.toWorld.status ≠ .stopped := by
      rintro ⟨⟩
    simp only [tell, Surroundings.tell, hregister, resume, if_neg hstatus]
    refine actsOn_of_views rfl hasks (.inr ?_) fun a hne => ?_
    · rw [viewOf_spawnAt, if_pos rfl]
      have hself := viewOf_withEntry_self p order.world t.toWorld
      exact hself ▸ .restore hview hworld hhistory
    · rw [viewOf_spawnAt, if_neg fun heq => hne heq.symm, ← viewOf_withEntry p hne t.toWorld]
      rfl

/-- A ticker starts, after the registry has got a new entry of its world. -/
theorem actsOn_launch {p' : Manager} {order : SpawnOrder} {version : Count}
    {weatherSyncedAt : Duration} {plan : Option CatchUpPlan} (entry : World)
    (hp : p.Coherent) {stage : SpawnStage} (herrand : p.errand = some (.spawn order stage))
    (hwiring : p'.wiring = p.wiring)
    (hviews : ∀ a, p'.viewOf a = (p.withEntry order.world entry).viewOf a)
    (hstep : ∀ t, Ticker.new? p.wiring.clock order.world order.dilation version weatherSyncedAt
      plan = some t →
      (p.viewOf order.world).Step p.wiring m order.world
        { p.viewOf order.world with entry := some entry, ticker := some t, errand := none }) :
    p.ActsOn m order.world (p'.launch order version weatherSyncedAt plan) := by
  obtain ⟨-, haccepted, -⟩ := (hp order.world).errand _ (errand_eq_some p herrand rfl)
  obtain ⟨delta, hdelta⟩ := Option.isSome_iff_exists.mp haccepted
  obtain ⟨t, hnew⟩ : ∃ t, Ticker.new? p.wiring.clock order.world order.dilation version
      weatherSyncedAt plan = some t := ⟨_, by rw [Ticker.new?, hdelta, Option.map_some]⟩
  rw [← hwiring] at hnew
  refine actsOn_of_views ?_ (asksOnly_of_errand herrand rfl) (.inr ?_) fun a hne => ?_
  · rw [launch_wiring, hwiring]
  · rw [viewOf_launch _ _ hnew, if_pos rfl, hviews, viewOf_withEntry_self]
    exact hstep t (hwiring ▸ hnew)
  · rw [viewOf_launch _ _ hnew, if_neg hne, hviews, viewOf_withEntry p hne]

/-- Taking a known world up again, whichever way its errand came to that. -/
theorem takeUp_actsOn (p' : Manager) (hp : p.Coherent) (hwiring : p'.wiring = p.wiring)
    (hviews : ∀ a, p'.viewOf a = p.viewOf a) {order : SpawnOrder} {stage : SpawnStage}
    {known : World} {version : Count} (herrand : p.errand = some (.spawn order stage))
    (hstep : ∀ entry t, (p.viewOf order.world).entry = some entry →
      Ticker.new? p.wiring.clock order.world order.dilation version entry.weatherSyncedAt
        (known.planAt p.wiring.clock.tickInterval m.wall) = some t →
      (p.viewOf order.world).Step p.wiring m order.world
        ((p.viewOf order.world).takenUp p.wiring m order known entry t))
    (hentry : (p.viewOf order.world).entry ≠ none) :
    p.ActsOn m order.world (p'.takeUp m order known version) := by
  obtain ⟨entry, hget⟩ := Option.ne_none_iff_exists'.mp hentry
  have hget' : p'.surroundings.registry.get? order.world = some entry :=
    (congrArg View.entry (hviews order.world)).trans hget
  have hplan : p'.planFor m known = known.planAt p.wiring.clock.tickInterval m.wall := by
    rw [planFor_eq, hwiring]
  have hupdate := Registry.update_eq _ hget' (World.regression?_resumed order
    (known.planAt p.wiring.clock.tickInterval m.wall) entry)
  rw [takeUp]
  simp only [hplan, hupdate]
  exact actsOn_launch _ hp herrand hwiring (viewOf_withEntry_congr hviews _)
    fun t hnew => hstep entry t hget hnew

theorem announce_actsOn (hp : p.Coherent) {order : SpawnOrder} {known : World}
    (herrand : p.errand = some (.spawn order (.readingVersion known))) :
    p.ActsOn m order.world (p.announce m order known
      ((p.surroundings.log.latestVersion? order.world.text).getD 0)) := by
  have hview := errand_eq_some p herrand rfl
  obtain ⟨-, -, -, hentry⟩ := (hp order.world).errand _ hview
  rw [announce]
  split
  · next hannounce =>
    exact actsOn_spawnAt rfl (asksOnly_of_errand herrand rfl) (.announce hview hannounce)
  · next hannounce =>
    exact takeUp_actsOn p hp rfl (fun _ => rfl) herrand
      (fun entry t hget hnew => .takeUp hview (by simpa using hannounce) hget hnew) hentry

theorem enroll_actsOn (hp : p.Coherent) {order : SpawnOrder} {filing : Filing}
    (herrand : p.errand = some (.spawn order (.creating filing)))
    (hfiled : filing.verdict = some (.ok ())) :
    p.ActsOn m order.world ((p.project order.world filing.event).enroll m order) := by
  have hview := errand_eq_some p herrand rfl
  obtain ⟨-, -, -, hentry, -⟩ := (hp order.world).errand _ hview
  have hregistry : (p.project order.world filing.event).surroundings.registry =
      p.surroundings.registry := Ticker.project_registry _ _ _
  have hregister := Registry.register_eq
    (w := World.starting order.world order.name order.dilation m.wall) hentry
  rw [enroll]
  simp only [hregistry, hregister]
  refine actsOn_launch (World.starting order.world order.name order.dilation m.wall) hp herrand rfl
    (fun a => ?_) fun t hnew => .enroll hview hfiled hnew
  rw [viewOf_tell, viewOf_withRegistry, viewOf_project]
  rfl

/-! ### Stopping -/

theorem beginStop_actsOn (hbusy : p.isBusy = false) :
    p.ActsOn m b (p.beginStop b) := by
  have hasks := asksOnly_of_not_isBusy hbusy b
  have hidle := errand_eq_none_of_not_isBusy p b hbusy
  rw [beginStop]
  split
  · next hactive =>
    rw [isActive] at hactive
    split at hactive
    · cases hactive
    · next t hticker =>
      have hviews : ∀ a, (({ p with tickers := p.tickers.modify b Ticker.requestStop } :
          Manager).viewOf a) = { p.viewOf a with
            ticker := if a = b then some t.requestStop else (p.viewOf a).ticker } := by
        intro a
        simp only [viewOf, WorldTable.get?_modify, hticker, Option.map_some]
      refine actsOn_of_views rfl hasks (.inr ?_) fun a hne => ?_
      · rw [viewOf_stopAt, if_pos rfl, hviews, if_pos rfl]
        exact .askStop hidle hticker (by simpa using hactive)
      · rw [viewOf_stopAt, if_neg fun heq => hne heq.symm, hviews, if_neg hne]
  · exact actsOn_refuse hasks hidle _

def withoutTicker (p : Manager) (b : WorldId) : Manager :=
  { p with tickers := p.tickers.erase b }

theorem viewOf_withoutTicker (p : Manager) (a b : WorldId) :
    (p.withoutTicker b).viewOf a =
      { p.viewOf a with ticker := if a = b then none else (p.viewOf a).ticker } := by
  simp only [viewOf, withoutTicker, WorldTable.get?_erase]

theorem viewOf_pause {entry : World} (hentry : p.surroundings.registry.get? b = some entry)
    (hticker : p.tickers.get? b = none) (version pending : Count) :
    (p.pause m b version pending).viewOf b =
      (p.viewOf b).paused p.wiring m b entry version pending := by
  have hupdate := Registry.update_eq
    (World.paused (m.wall.backDated p.wiring.clock.tickInterval pending)) hentry
    (World.regression?_paused entry _)
  have hself := viewOf_withEntry_self p b
    (World.paused (m.wall.backDated p.wiring.clock.tickInterval pending) entry)
  rw [withEntry] at hself
  have hnone : (p.viewOf b).ticker = none := hticker
  simp only [pause, hupdate, viewOf_stopAt, if_true, hself, View.paused, hnone]
  rfl

theorem viewOf_pause_withoutTicker {entry : World}
    (hentry : p.surroundings.registry.get? b = some entry) (version pending : Count) :
    ((p.withoutTicker b).pause m b version pending).viewOf b =
      (p.viewOf b).paused p.wiring m b entry version pending := by
  have hwithout : (p.withoutTicker b).viewOf b = { p.viewOf b with ticker := none } := by
    rw [viewOf_withoutTicker, if_pos rfl]
  rw [viewOf_pause (p := p.withoutTicker b) hentry (congrArg View.ticker hwithout), hwithout]
  rfl

/-- Pausing a world, once its ticker is gone. -/
theorem pause_actsOn {p' : Manager} {errand : Errand} {version pending : Count}
    (herrand : p.errand = some errand) (hworld : errand.world? = some b)
    (hwiring : p'.wiring = p.wiring)
    (hviews : ∀ a, p'.viewOf a = (p.withoutTicker b).viewOf a)
    (hstep : ∀ entry, (p.viewOf b).entry = some entry →
      (p.viewOf b).Step p.wiring m b ((p.viewOf b).paused p.wiring m b entry version pending))
    (hentry : (p.viewOf b).entry ≠ none) : p.ActsOn m b (p'.pause m b version pending) := by
  obtain ⟨entry, hget⟩ := Option.ne_none_iff_exists'.mp hentry
  have hgetp : p'.surroundings.registry.get? b = some entry := by
    have hview := congrArg View.entry (hviews b)
    rw [viewOf_withoutTicker] at hview
    exact hview.trans hget
  have hupdate := Registry.update_eq
    (World.paused (m.wall.backDated p'.wiring.clock.tickInterval pending)) hgetp
    (World.regression?_paused entry _)
  rw [pause]
  simp only [hupdate]
  refine actsOn_of_views hwiring (asksOnly_of_errand herrand hworld) (.inr ?_) fun a hne => ?_
  · rw [viewOf_stopAt, if_pos rfl]
    have hself := viewOf_withEntry_self p' b
      (World.paused (m.wall.backDated p'.wiring.clock.tickInterval pending) entry)
    simp only [withEntry] at hself
    rw [hself, hviews, viewOf_withoutTicker, if_pos rfl, hwiring]
    exact hstep entry hget
  · rw [viewOf_stopAt, if_neg fun heq => hne heq.symm]
    have hother := viewOf_withEntry p' hne
      (World.paused (m.wall.backDated p'.wiring.clock.tickInterval pending) entry)
    simp only [withEntry] at hother
    rw [hother, hviews, viewOf_withoutTicker, if_neg hne]

theorem join_actsOn (hp : p.Coherent) (herrand : p.errand = some (.stop b .joining)) :
    p.ActsOn m b (p.join m b) := by
  have hview := errand_eq_some p herrand rfl
  obtain ⟨-, hentry, -⟩ := (hp b).errand _ hview
  rw [join]
  split
  · exact actsOn_refl p m b
  next t hticker =>
  split
  · next pending hphase =>
    exact pause_actsOn herrand rfl rfl (fun a => rfl)
      (fun entry hget => .pause hview hticker hphase hget) hentry
  · next culprit hphase =>
    refine actsOn_of_views rfl (asksOnly_of_errand herrand rfl) (.inr ?_) fun a hne => ?_
    · rw [viewOf_stopAt, if_pos rfl, viewOf_tell]
      have hself := viewOf_withoutTicker p b b
      rw [if_pos rfl] at hself
      simp only [withoutTicker] at hself
      rw [hself]
      exact .breakDown hview hticker hphase
    · rw [viewOf_stopAt, if_neg fun heq => hne heq.symm, viewOf_tell]
      have hother := viewOf_withoutTicker p a b
      rw [if_neg hne] at hother
      simp only [withoutTicker] at hother
      rw [hother]
  · exact actsOn_refl p m b

/-! ### Waiting for the log -/

/-- The world that the errand of a process is about; any world if there is no errand under way. -/
def errandWorld (p : Manager) : WorldId := ((p.errand.bind Errand.world?)).getD default

theorem errandWorld_eq {errand : Errand} (herrand : p.errand = some errand)
    (hworld : errand.world? = some b) : p.errandWorld = b := by
  simp [errandWorld, herrand, hworld]

theorem read_actsOn (hp : p.Coherent) (failure : Option LogError) :
    p.ActsOn m p.errandWorld (p.read m failure) := by
  rw [read]
  split
  · next order herrand =>
    rw [errandWorld_eq herrand rfl]
    split
    · exact actsOn_giveUp herrand rfl (by rintro ⟨⟩) _
    · exact restoreFrom_actsOn hp herrand
  · next order known herrand =>
    rw [errandWorld_eq herrand rfl]
    split
    · exact actsOn_giveUp herrand rfl (by rintro ⟨⟩) _
    · exact announce_actsOn hp herrand
  · next world herrand =>
    rw [errandWorld_eq herrand rfl]
    split
    · exact actsOn_giveUp herrand rfl (by rintro ⟨⟩) _
    · have hview := errand_eq_some p herrand rfl
      obtain ⟨-, hentry, hticker⟩ := (hp world).errand _ hview
      refine pause_actsOn herrand rfl rfl (fun a => ?_)
        (fun entry hget => .pauseBroken hview hget) hentry
      rw [viewOf_withoutTicker]
      split
      · next heq =>
        subst heq
        rw [← hticker]
      · rfl
  · exact actsOn_refl p m _

theorem file_actsOn (hp : p.Coherent) : p.ActsOn m p.errandWorld p.file := by
  rw [file]
  split
  · next order filing herrand =>
    have hview := errand_eq_some p herrand rfl
    obtain ⟨-, -, -, -, haggregate⟩ := (hp order.world).errand _ hview
    have hasks : p.AsksOnly order.world := asksOnly_of_errand herrand rfl
    rw [errandWorld_eq herrand rfl]
    refine actsOn_of_views rfl hasks (.inr ?_) fun a hne => ?_
    · rw [viewOf_spawnAt, if_pos rfl]
      exact .fileCreation hview (filing.file_files p.surroundings.log haggregate)
    · rw [viewOf_spawnAt, if_neg fun heq => hne heq.symm]
      simp only [Surroundings.file, viewOf, Filing.about_file filing _ haggregate hne]
  · next order known filing herrand =>
    have hview := errand_eq_some p herrand rfl
    obtain ⟨-, -, -, -, haggregate⟩ := (hp order.world).errand _ hview
    have hasks : p.AsksOnly order.world := asksOnly_of_errand herrand rfl
    rw [errandWorld_eq herrand rfl]
    refine actsOn_of_views rfl hasks (.inr ?_) fun a hne => ?_
    · rw [viewOf_spawnAt, if_pos rfl]
      exact .fileAnnouncement hview (filing.file_files p.surroundings.log haggregate)
    · rw [viewOf_spawnAt, if_neg fun heq => hne heq.symm]
      simp only [Surroundings.file, viewOf, Filing.about_file filing _ haggregate hne]
  · next world filing w pending herrand =>
    have hview := errand_eq_some p herrand rfl
    obtain ⟨-, -, -, haggregate⟩ := (hp world).errand _ hview
    have hasks : p.AsksOnly world := asksOnly_of_errand herrand rfl
    rw [errandWorld_eq herrand rfl]
    refine actsOn_of_views rfl hasks (.inr ?_) fun a hne => ?_
    · rw [viewOf_stopAt, if_pos rfl]
      exact .filePause hview (filing.file_files p.surroundings.log haggregate)
    · rw [viewOf_stopAt, if_neg fun heq => hne heq.symm]
      simp only [Surroundings.file, viewOf, Filing.about_file filing _ haggregate hne]
  · exact actsOn_refl p m _

theorem verdict_of_answered {filing : Filing} {r : Reply LogError}
    (h : filing.outcome? r = some .answered) : filing.verdict = some (.ok ()) := by
  obtain ⟨e, verdict⟩ := filing
  cases r with
  | failed error => cases h
  | timedOut => cases h
  | answered =>
    cases verdict with
    | none => cases h
    | some verdict =>
      cases verdict with
      | ok u => rfl
      | error error => cases h

theorem conclude_actsOn (hp : p.Coherent) (r : Reply LogError) :
    p.ActsOn m p.errandWorld (p.conclude m r) := by
  rw [conclude]
  cases hfiling : p.filing? with
  | none => exact actsOn_refl p m _
  | some filing =>
    rw [Option.bind_some]
    split
    · exact actsOn_refl p m _
    · exact actsOn_refl p m _
    · next error houtcome =>
      rw [filing?] at hfiling
      split at hfiling
      · next herrand =>
        rw [errandWorld_eq herrand rfl]
        exact actsOn_giveUp herrand rfl (by rintro ⟨⟩) _
      · next herrand =>
        rw [errandWorld_eq herrand rfl]
        exact actsOn_giveUp herrand rfl (by rintro ⟨⟩) _
      · next herrand =>
        rw [errandWorld_eq herrand rfl]
        exact actsOn_giveUp herrand rfl (by rintro ⟨⟩) _
      · cases hfiling
    · next houtcome =>
      have hfiled := verdict_of_answered houtcome
      split
      · next order filing' herrand =>
        rw [filing?, herrand] at hfiling
        cases hfiling
        rw [errandWorld_eq herrand rfl]
        exact enroll_actsOn hp herrand hfiled
      · next order known filing' herrand =>
        rw [filing?, herrand] at hfiling
        cases hfiling
        rw [errandWorld_eq herrand rfl]
        have hview := errand_eq_some p herrand rfl
        obtain ⟨-, -, -, hentry, -⟩ := (hp order.world).errand _ hview
        exact takeUp_actsOn (p.project order.world filing.event) hp rfl
          (fun a => viewOf_project p a _ _) herrand
          (fun entry t hget hnew => .takeUpAnnounced hview hfiled hget hnew) hentry
      · next world filing' w pending herrand =>
        rw [errandWorld_eq herrand rfl]
        have hasks : p.AsksOnly world := asksOnly_of_errand herrand rfl
        refine actsOn_of_views rfl hasks (.inr ?_) fun a hne => ?_
        · rw [viewOf_finish, viewOf_tell, viewOf_project]
          exact .giveUp (errand_eq_some p herrand rfl) (by rintro ⟨⟩)
        · rw [viewOf_finish, viewOf_tell, viewOf_project]
      · exact actsOn_refl p m _

/-! ### Tickers -/

theorem errand_stepTicker (p : Manager) (b : WorldId)
    (step : Ticker → Surroundings → Ticker × Surroundings) :
    (p.stepTicker b step).errand = p.errand := by
  rw [stepTicker]
  split <;> rfl

theorem stepTicker_actsOn {step : Ticker → Surroundings → Ticker × Surroundings}
    (hstep : ∀ t, p.tickers.get? b = some t →
      ((p.viewOf b).StaysOrSteps p.wiring m b
        { p.viewOf b with
          entry := (step t p.surroundings).2.registry.get? b
          ticker := some (step t p.surroundings).1
          events := (step t p.surroundings).2.log.about b }) ∧
      ∀ a, a ≠ b → (step t p.surroundings).2.registry.get? a = p.surroundings.registry.get? a ∧
        (step t p.surroundings).2.log.about a = p.surroundings.log.about a) :
    p.ActsOn m b (p.stepTicker b step) := by
  rw [stepTicker]
  cases hticker : p.tickers.get? b with
  | none => exact actsOn_refl p m b
  | some t =>
    obtain ⟨hview, hothers⟩ := hstep t hticker
    refine ⟨rfl, ?_, fun a hne => ?_⟩
    · have hset := WorldTable.get?_set_self p.tickers b (step t p.surroundings).1
      simp only [viewOf, hset] at hview ⊢
      exact hview
    · have hset := WorldTable.get?_set p.tickers b a (step t p.surroundings).1
      rw [if_neg hne] at hset
      obtain ⟨hregistry, hlog⟩ := hothers a hne
      simp only [viewOf, hset, hregistry, hlog]

theorem stepTicker_actsOn_of_goes (hp : p.Coherent)
    {step : Ticker → Surroundings → Ticker × Surroundings}
    (hstep : ∀ t entry, t.world = b → p.surroundings.registry.get? t.world = some entry →
      entry.markerFits = true →
      Ticker.StaysOrGoes p.wiring m t entry p.surroundings (step t p.surroundings)) :
    p.ActsOn m b (p.stepTicker b step) := by
  refine stepTicker_actsOn fun t hticker => ?_
  obtain ⟨hworld, hne, -⟩ := (hp b).ticker t hticker
  obtain ⟨entry, hentry⟩ := Option.ne_none_iff_exists'.mp hne
  have hmarker := (hp b).markerFits hentry
  obtain ⟨entry', hleaves, hgoes⟩ := hstep t entry hworld (hworld ▸ hentry) hmarker
  rw [hworld] at hleaves
  refine ⟨?_, fun a hne => ⟨hleaves.others a hne, by rw [hleaves.log]⟩⟩
  rw [hleaves.entry, hleaves.log]
  obtain ⟨ht, he⟩ | hgoes := hgoes
  · rw [ht, he, ← hentry, ← show (p.viewOf b).ticker = some t from hticker]
    exact .inl rfl
  · exact .inr (.goes hticker hentry hgoes)

theorem fileFor_actsOn (hp : p.Coherent) : p.ActsOn m b (p.stepTicker b Ticker.file) := by
  refine stepTicker_actsOn fun t hticker => ?_
  obtain ⟨hworld, hne, hfilings, -⟩ := (hp b).ticker t hticker
  have hself : p.viewOf b = { p.viewOf b with ticker := some t } := by
    rw [← show (p.viewOf b).ticker = some t from hticker]
  rw [Ticker.file]
  split
  · next cause gameTime filing hphase =>
    have haggregate := hfilings filing (by rw [Ticker.filing?, hphase])
    refine ⟨.inr ?_, fun a hne => ⟨rfl, Filing.about_file filing _ haggregate hne⟩⟩
    exact .fileTick hticker hphase (filing.file_files p.surroundings.log haggregate)
  · next run filing hphase =>
    have haggregate := hfilings filing (by rw [Ticker.filing?, hphase])
    refine ⟨.inr ?_, fun a hne => ⟨rfl, Filing.about_file filing _ haggregate hne⟩⟩
    exact .fileResumption hticker hphase (filing.file_files p.surroundings.log haggregate)
  · exact ⟨.inl hself.symm, fun a _ => ⟨rfl, rfl⟩⟩

end Manager

/-- A move that comes from the process itself. -/
def Move.isOwn : Move → Bool
  | .update _ _ => false
  | _ => true

namespace Manager

/-- A move of its own does to one world nothing or one step, and to all others nothing. -/
theorem apply_actsOn {p : Manager} (hp : p.Coherent) (m : Moment) {move : Move}
    (hown : move.isOwn = true) : ∃ b, p.ActsOn m b (p.apply m move) := by
  cases move with
  | spawn order =>
    refine ⟨order.world, ?_⟩
    rw [apply]
    split
    · exact actsOn_refl p m _
    · next hbusy => exact beginSpawn_actsOn hp order (by simpa using hbusy)
  | stop world =>
    refine ⟨world, ?_⟩
    rw [apply]
    split
    · exact actsOn_refl p m _
    · next hbusy => exact beginStop_actsOn (by simpa using hbusy)
  | join =>
    rw [apply]
    split
    · next world herrand => exact ⟨world, join_actsOn hp herrand⟩
    · exact ⟨default, actsOn_refl p m _⟩
  | read failure => exact ⟨_, read_actsOn hp failure⟩
  | file => exact ⟨_, file_actsOn hp⟩
  | conclude reply => exact ⟨_, conclude_actsOn hp reply⟩
  | poll world =>
    exact ⟨world, stepTicker_actsOn_of_goes hp fun _ _ _ hentry hmarker =>
      Ticker.poll_goes hentry hmarker⟩
  | answer world reply =>
    exact ⟨world, stepTicker_actsOn_of_goes hp fun _ _ _ hentry _ =>
      Ticker.answer_goes hentry reply⟩
  | fileFor world => exact ⟨world, fileFor_actsOn hp⟩
  | concludeFor world reply =>
    exact ⟨world, stepTicker_actsOn_of_goes hp fun _ _ _ hentry hmarker =>
      Ticker.conclude_goes hentry hmarker reply⟩
  | crash world culprit =>
    exact ⟨world, stepTicker_actsOn_of_goes hp fun _ _ _ hentry _ =>
      Ticker.crash_goes hentry culprit⟩
  | update world change => cases hown

theorem apply_step {p : Manager} (hp : p.Coherent) (m : Moment) {move : Move}
    (hown : move.isOwn = true) (a : WorldId) :
    (p.viewOf a).StaysOrSteps p.wiring m a ((p.apply m move).viewOf a) := by
  obtain ⟨b, hacts⟩ := apply_actsOn hp m hown
  by_cases hne : a = b
  · subst hne
    exact hacts.view
  · exact .inl (hacts.others a hne)

theorem viewOf_update (p : Manager) (m : Moment) (world a : WorldId) (change : World → World) :
    (p.apply m (.update world change)).viewOf a = p.viewOf a ∨
      ∃ entry, a = world ∧ (p.viewOf a).entry = some entry ∧
        entry.regression? (change entry) = none ∧
        (p.apply m (.update world change)).viewOf a =
          { p.viewOf a with entry := some (change entry) } := by
  rw [apply]
  split
  · exact .inl rfl
  · next new registry hupdate =>
    obtain ⟨old, hget, rfl, hregression, rfl⟩ := Registry.update_eq_ok hupdate
    by_cases hne : a = world
    · subst hne
      exact .inr ⟨old, rfl, hget, hregression, viewOf_withEntry_self p a _⟩
    · exact .inl (viewOf_withEntry p hne _)

/-- A move does nothing to a world, takes a step of it, or changes its entry from outside. -/
theorem apply_cases {p : Manager} (hp : p.Coherent) (m : Moment) (move : Move) (a : WorldId) :
    (p.apply m move).viewOf a = p.viewOf a ∨
      (p.viewOf a).Step p.wiring m a ((p.apply m move).viewOf a) ∨
      ∃ change entry, move = .update a change ∧ (p.viewOf a).entry = some entry ∧
        entry.regression? (change entry) = none ∧
        (p.apply m move).viewOf a = { p.viewOf a with entry := some (change entry) } := by
  cases hown : move.isOwn with
  | true => exact (apply_step hp m hown a).imp_right .inl
  | false =>
    cases move with
    | update world change =>
      obtain heq | ⟨entry, rfl, hentry, hregression, heq⟩ := viewOf_update p m world a change
      · exact .inl heq
      · exact .inr (.inr ⟨change, entry, rfl, hentry, hregression, heq⟩)
    | _ => cases hown

theorem apply_wiring {p : Manager} (hp : p.Coherent) (m : Moment) (move : Move) :
    (p.apply m move).wiring = p.wiring := by
  cases hown : move.isOwn with
  | true =>
    obtain ⟨b, hacts⟩ := apply_actsOn hp m hown
    exact hacts.wiring
  | false =>
    cases move with
    | update world change =>
      rw [apply]
      split <;> rfl
    | _ => cases hown

/-- Whatever happens to a process, its parts keep fitting together. -/
theorem Coherent.apply {p : Manager} (hp : p.Coherent) (m : Moment) (move : Move) :
    (p.apply m move).Coherent := by
  intro a
  rw [apply_wiring hp]
  obtain heq | hstep | ⟨change, entry, -, hentry, hregression, heq⟩ := apply_cases hp m move a
  · rw [heq]
    exact hp a
  · exact hstep.coherent (hp a)
  · rw [heq]
    exact (hp a).update hentry hregression

theorem Coherent.register {p : Manager} (hp : p.Coherent) {world : World} {registry : Registry}
    (hregister : p.surroundings.registry.register world = .ok registry)
    (hmarker : world.markerFits = true) (herrand : (p.viewOf world.id).errand = none) :
    (p.withRegistry registry).Coherent := by
  rw [Registry.register] at hregister
  split at hregister
  · cases hregister
  next hnew =>
  cases hregister
  intro a
  by_cases hne : a = world.id
  · subst hne
    have hview := viewOf_withEntry_self p world.id world
    rw [withEntry] at hview
    rw [hview]
    refine ⟨?_, fun t hticker => ?_, fun e he => ?_⟩
    · intro e he
      cases he
      exact ⟨rfl, hmarker⟩
    · have ht := (hp world.id).ticker t hticker
      exact ⟨ht.1, Option.some_ne_none _, ht.2.2⟩
    · rw [herrand] at he
      cases he
  · have hview := viewOf_withEntry p hne world
    rw [withEntry] at hview
    rw [hview]
    exact hp a

theorem coherent_start (wiring : Wiring) (log : EventLog)
    (projections : Option (Dispatcher ReadModel)) : (start wiring log projections).Coherent :=
  fun _ => ⟨by rintro e ⟨⟩, by rintro t ⟨⟩, by rintro e ⟨⟩⟩

end Manager

end WorldClock
