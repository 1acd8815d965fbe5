import WorldClock.Proofs.Manager.Broadcasts
import WorldClock.Proofs.Tallies
import WorldClock.Proofs.Versions

/-!
# Registry, log and broadcasts agree

An advance of a world changes its entry in the registry, publishes a snapshot and stores an event,
one after the other. Whoever watches a world notes for each of its advances what was published and
what was stored (`Manager.advances`). Unless an advance is under way, the entry has the totals of
the stored ticks, and while one is under way it is ahead of them by that one tick
(`View.Unwritten`). So as long as the log takes every event, the ticks that it has are numbered from
one, each tells the sum of all up to it, and the snapshot that went out before it told the same.

A process may die in the middle of an advance: its registry is gone, and the next one starts from
what the log has. A ticker that breaks down there leaves an entry that no event tells of. The
process lives on with it, so this is the one thing that has to be ruled out.
-/

namespace WorldClock

/-! ### Advances -/

/-- What came of one advance of a world. -/
structure Advance where
  /-- Whether its process has somewhere to publish. -/
  publishes : Bool
  published : List Snapshot
  event? : Option Event

namespace Advance

/-- What went out told so many ticks and so much game time. -/
def Shows (advance : Advance) (ticks nanos : Nat) : Prop :=
  advance.published.map (fun s => (s.tick.toNat, s.gameTimeMillis.toNat)) =
    if advance.publishes then [(ticks, nanos / nanosPerMilli)] else []

/-- Notes of the advances of a world, the latest one first, whether another one begins, what was
published meanwhile, and which tick was stored. -/
def note (begins publishes : Bool) (published : List Snapshot) (tick? : Option Event)
    (advances : List Advance) : List Advance :=
  match if begins then ⟨publishes, [], none⟩ :: advances else advances with
  | [] => []
  | latest :: earlier =>
    { latest with
      published := latest.published ++ published
      event? := latest.event?.or tick? } :: earlier

theorem note_nothing (publishes : Bool) (advances : List Advance) :
    note false publishes [] none advances = advances := by
  cases advances with
  | nil => rfl
  | cons latest earlier => simp [note]

theorem length_le_note (begins publishes : Bool) (published : List Snapshot)
    (tick? : Option Event) (advances : List Advance) :
    advances.length ≤ (note begins publishes published tick? advances).length := by
  cases begins <;> cases advances <;> simp [note]

end Advance

namespace View

/-- The tick that was stored between two views of a world. -/
def newTick? (v v' : View) : Option Event :=
  (ticksOf (v'.events.take (v'.events.length - v.events.length))).head?

theorem newTick?_of_eq {v v' : View} (h : v'.events = v.events) : v.newTick? v' = none := by
  rw [newTick?, h, Nat.sub_self, List.take_zero]
  rfl

theorem newTick?_of_cons {v v' : View} {e : Event} (h : v'.events = e :: v.events) :
    v.newTick? v' = (ticksOf [e]).head? := by
  rw [newTick?, h, List.length_cons, Nat.add_sub_cancel_left]
  rfl

end View

namespace Manager

def noteAdvance (p q : Manager) (a : WorldId) (advances : List Advance) : List Advance :=
  Advance.note ((p.viewOf a).begins (q.viewOf a)) p.wiring.publishes (p.publishedSince q a)
    ((p.viewOf a).newTick? (q.viewOf a)) advances

/-- The advances of a world at the end of a course, the latest one first, after those noted
before. -/
def noteAdvances (p : Manager) (a : WorldId) (noted : List Advance) : List Incident → List Advance
  | [] => noted
  | i :: course => (p.meet i).noteAdvances a (p.noteAdvance (p.meet i) a noted) course

/-- The advances of a world in a course, in their order. -/
def advances (p : Manager) (a : WorldId) (course : List Incident) : List Advance :=
  (p.noteAdvances a [] course).reverse

theorem length_le_noteAdvances (p : Manager) (a : WorldId) (noted : List Advance)
    (course : List Incident) : noted.length ≤ (p.noteAdvances a noted course).length := by
  induction course generalizing p noted with
  | nil => exact Nat.le_refl _
  | cons i course ih => exact Nat.le_trans (Advance.length_le_note _ _ _ _ _) (ih _ _)

end Manager

/-- Whether a ticker is in an advance whose event is not stored. -/
def Phase.isUnwritten : Phase → Bool
  | .publishing _ _ => true
  | .recording _ _ filing => !filing.isStored
  | _ => false

namespace View

/-- Whether an advance of a world is under way whose event is not stored. -/
def isUnwritten (v : View) : Bool := v.ticker.any fun t => t.phase.isUnwritten

/-- An entry is one tick ahead of the log, and the latest advance has told nobody but those to whom
it has published. -/
structure Unwritten (t : Ticker) (entry : World) (events : List Event) (advances : List Advance) :
    Prop where
  tickCount : entry.tickCount.toNat = (ticksOf events).length + 1
  gameTime : entry.gameTime.nanos = t.delta.nanos + tickedNanos (ticksOf events)
  latest : ∃ advance earlier, advances = advance :: earlier ∧ advance.event? = none ∧
    advance.Shows entry.tickCount.toNat entry.gameTime.nanos

/-- The registry, the log and what was published tell the same of a world. -/
structure Agrees (a : WorldId) (v : View) (advances : List Advance) : Prop where
  tallies : Tallies (ticksOf v.events)
  story : ∀ t, Story a v.events t → IsTallyOf (ticksOf v.events) t.tickCount t.gameTime
  entry : ∀ entry, v.entry = some entry → v.isUnwritten = false →
    IsTallyOf (ticksOf v.events) entry.tickCount entry.gameTime
  unwritten : ∀ t entry, v.ticker = some t → v.entry = some entry →
    t.phase.isUnwritten = true → Unwritten t entry v.events advances
  stored : advances.filterMap (·.event?) = ticksOf v.events
  shown : ∀ advance ∈ advances, ∀ e, advance.event? = some e →
    ∃ d, e.tick? = some d ∧ advance.Shows d.tickCount.toNat d.gameTimeNanos.toNat

end View

/-! ### Steps of a ticker -/

namespace Ticker

variable {w : Wiring} {m : Moment} {t t' : Ticker} {entry entry' : World}

/-- What a step of a ticker is to an advance. -/
inductive Advances (w : Wiring) (m : Moment) (t : Ticker) (entry : World) (t' : Ticker)
    (entry' : World) : Prop where
  | begins (hbegins : t.phase.begins t'.phase = true) (hbefore : t.phase.isUnwritten = false)
    (hafter : t'.phase.isUnwritten = true) (hdelta : t'.delta = t.delta)
    (hentry : entry' = entry.ticked t.delta m.wall)
  /-- It goes on to its append. -/
  | writes (hbegins : t.phase.begins t'.phase = false)
    (hsame : t'.phase.isUnwritten = t.phase.isUnwritten) (hdelta : t'.delta = t.delta)
    (hentry : entry' = entry)
  /-- Its append is over. -/
  | ends {f : Filing} (hbegins : t.phase.begins t'.phase = false) (hfiling : t.filing? = some f)
    (hbefore : t.phase.isUnwritten = !f.isStored) (hover : t'.filing? = none)
    (hafter : t'.phase.isUnwritten = false ∧ t'.phase.isCrashed = false)
    (htotals : entry'.tickCount = entry.tickCount ∧ entry'.gameTime = entry.gameTime)
  | breaks (hbegins : t.phase.begins t'.phase = false) (hafter : t'.phase.isUnwritten = false)
    (hbroken : t'.phase.isCrashed = true) (hentry : entry' = entry)
  /-- None is under way. -/
  | rests (hbegins : t.phase.begins t'.phase = false) (hbefore : t.phase.isUnwritten = false)
    (hafter : t'.phase.isUnwritten = false)
    (htotals : entry'.tickCount = entry.tickCount ∧ entry'.gameTime = entry.gameTime)

theorem Begins.phase_rests {cause : TickCause} (h : t.Begins w m cause) :
    t.phase.isTicking = false ∧ t.phase.isUnwritten = false := by
  cases h with
  | owed hphase | due hphase =>
    rw [hphase]
    exact ⟨rfl, rfl⟩

theorem isUnwritten_restAfter (w : Wiring) (cause : TickCause) :
    (restAfter w cause).isUnwritten = false ∧ (restAfter w cause).isCrashed = false :=
  restAfter_cases w cause (fun _ => ⟨rfl, rfl⟩) (fun _ => ⟨rfl, rfl⟩) fun _ => ⟨rfl, rfl⟩

theorem Goes.advances (h : t.Goes w m entry t' entry') : t.Advances w m entry t' entry' := by
  cases h with
  | tick hbegins | tickUnpublished hbegins =>
    obtain ⟨hticking, hunwritten⟩ := hbegins.phase_rests
    refine .begins ?_ hunwritten rfl rfl rfl
    rw [Phase.begins, hticking]
    rfl
  | published hphase =>
    exact .writes (Phase.begins_of_before (by rw [hphase]; rfl) _) (by rw [hphase]; rfl) rfl rfl
  | @recorded cause gameTime f r r' hphase =>
    refine .ends (f := f) (Phase.begins_of_before (by rw [hphase]; rfl) _) ?_ ?_
      (filing?_endTick w cause t) (isUnwritten_restAfter w cause) ⟨rfl, rfl⟩
    · rw [filing?, hphase]
    · rw [hphase]
      rfl
  | @asked cause gameTime f r r' hphase =>
    refine .ends (f := f) (Phase.begins_of_before (by rw [hphase]; rfl) _) ?_ ?_ rfl
      ⟨rfl, rfl⟩ ⟨rfl, rfl⟩
    · rw [filing?, hphase]
    · rw [hphase]
      rfl
  | weathered hphase =>
    exact .rests (Phase.begins_of_before (by rw [hphase]; rfl) _) (by rw [hphase]; rfl)
      (isUnwritten_restAfter w _).1 ⟨rfl, rfl⟩
  | complete hphase =>
    refine .rests (Phase.begins_of_after _ rfl) (by rw [hphase]; rfl) rfl ?_
    obtain heq | ⟨-, heq⟩ := World.markRunning_eq entry
    · rw [heq]
      exact ⟨rfl, rfl⟩
    · rw [heq]
      exact ⟨rfl, rfl⟩
  | begin hphase | beginReplay hphase | goOn hphase | endReplay hphase | interrupt hphase
  | resumed hphase | halt hphase =>
    exact .rests (Phase.begins_of_after _ rfl) (by rw [hphase]; rfl) rfl ⟨rfl, rfl⟩
  | crash culprit hover => exact .breaks (Phase.begins_of_after _ rfl) rfl rfl rfl

end Ticker

/-! ### What a step keeps -/

namespace View

variable {w : Wiring} {m : Moment} {a : WorldId} {v v' : View} {advances : List Advance}

theorem isUnwritten_eq {t : Ticker} (hticker : v.ticker = some t) :
    v.isUnwritten = t.phase.isUnwritten := by
  rw [isUnwritten, hticker, Option.any_some]

theorem begins_eq {t t' : Ticker} (hticker : v.ticker = some t) (hticker' : v'.ticker = some t') :
    v.begins v' = t.phase.begins t'.phase := by
  simp only [begins, hticker, hticker']

theorem begins_of_none (hticker : v.ticker = none ∨ v'.ticker = none) : v.begins v' = false := by
  rw [begins]
  obtain hnone | hnone := hticker
  · rw [hnone]
  · rw [hnone]
    cases v.ticker <;> rfl

/-- The notes about a world after one more step of its process. -/
def note (w : Wiring) (v v' : View) (advances : List Advance) : List Advance :=
  Advance.note (v.begins v') w.publishes
    (if v.begins v' && w.publishes then (v'.entry.map w.calendar.snapshot).toList else [])
    (v.newTick? v') advances

theorem note_of_rest (hbegins : v.begins v' = false) (hnew : v.newTick? v' = none) :
    v.note w v' advances = advances := by
  rw [note, hbegins, hnew, Bool.false_and, if_neg Bool.false_ne_true, Advance.note_nothing]

/-- A step that is no part of an advance. -/
theorem Agrees.rest (h : v.Agrees a advances) (hevents : v'.events = v.events)
    (hentry : ∀ entry, v'.entry = some entry →
      IsTallyOf (ticksOf v.events) entry.tickCount entry.gameTime)
    (hafter : v'.isUnwritten = false) : v'.Agrees a advances where
  tallies := hevents ▸ h.tallies
  story := hevents ▸ h.story
  entry entry he _ := hevents ▸ hentry entry he
  unwritten t entry ht he hunwritten := by
    rw [isUnwritten_eq ht, hunwritten] at hafter
    cases hafter
  stored := hevents ▸ h.stored
  shown := h.shown

/-- The story of a world goes on with the append under way. -/
theorem Agrees.story_cons (hv : v.IsSound w a) (h : v.Agrees a advances) {f : Filing}
    (hfiling : v.filing? = some f)
    (hentry : ∀ entry, v.entry = some entry → entry.gameTime.nanos ≤ Count.greatest ∧
      IsTallyOf (ticksOf (f.event :: v.events)) entry.tickCount entry.gameTime)
    {t' : Timeline} (hstory : Story a (f.event :: v.events) t') :
    IsTallyOf (ticksOf (f.event :: v.events)) t'.tickCount t'.gameTime := by
  refine hstory.tally_cons h.story fun d tickCount nanos htells htotals => ?_
  have hkind : f.event.kind? = some .ticked ∨ f.event.kind? = some .paused := by
    cases d with
    | created d | resumed d => cases htotals
    | ticked d => exact .inl htells.kind
    | paused d => exact .inr htells.kind
  obtain ⟨entry, d', hget, -, htells', htotals'⟩ := hv.tells_totals hfiling hkind
  rw [htells.unique htells', htotals'] at htotals
  cases htotals
  obtain ⟨hfits, htally⟩ := hentry entry hget
  rw [Duration.ofNanoCount_toNanoCount hfits]
  exact htally

/-- The log sees an append that is not that of a tick. -/
theorem Agrees.filed (hv : v.IsSound w a) (h : v.Agrees a advances) {f f' : Filing}
    (hfiling : v.filing? = some f) (hfiles : f.Files v.events f' v'.events)
    (hkind : f.event.kind? ≠ some .ticked) (hentry : v'.entry = v.entry)
    (hbefore : v.isUnwritten = false) (hafter : v'.isUnwritten = false)
    (hfits : ∀ entry, v'.entry = some entry → entry.gameTime.nanos ≤ Count.greatest) :
    v.newTick? v' = none ∧ v'.Agrees a advances := by
  have hsame : ∀ entry, v'.entry = some entry →
      IsTallyOf (ticksOf v.events) entry.tickCount entry.gameTime :=
    fun entry he => h.entry entry (hentry ▸ he) hbefore
  obtain hevents | ⟨hevents, -⟩ := hfiles.events_eq
  · exact ⟨newTick?_of_eq hevents, h.rest hevents hsame hafter⟩
  have hticks : ticksOf v'.events = ticksOf v.events := by
    rw [hevents, ticksOf_cons_of_ne hkind]
  refine ⟨?_, ?_, ?_, ?_, ?_, ?_, h.shown⟩
  · rw [newTick?_of_cons hevents, ticksOf_cons_of_ne hkind]
    rfl
  · rw [hticks]
    exact h.tallies
  · intro t hstory
    rw [hevents] at hstory ⊢
    refine h.story_cons hv hfiling (fun entry he => ?_) hstory
    rw [← hentry] at he
    rw [ticksOf_cons_of_ne hkind]
    exact ⟨hfits entry he, hsame entry he⟩
  · intro entry he _
    rw [hticks]
    exact hsame entry he
  · intro t entry ht he hunwritten
    rw [isUnwritten_eq ht, hunwritten] at hafter
    cases hafter
  · rw [hticks]
    exact h.stored

theorem note_of_begins {t t' : Ticker} {entry' : World} (hticker : v.ticker = some t)
    (hbegins : t.phase.begins t'.phase = true) (hticker' : v'.ticker = some t')
    (hentry' : v'.entry = some entry') (hevents : v'.events = v.events) :
    v.note w v' advances =
      ⟨w.publishes, if w.publishes then [w.calendar.snapshot entry'] else [], none⟩ ::
        advances := by
  rw [note, View.begins_eq hticker hticker', hbegins, newTick?_of_eq hevents, hentry']
  rfl

/-- The snapshot of an entry tells its totals. -/
theorem shows_snapshot (publishes : Bool) (calendar : Calendar) {entry : World}
    (hfits : entry.gameTime.nanos ≤ Count.greatest) (event? : Option Event) :
    Advance.Shows ⟨publishes, if publishes then [calendar.snapshot entry] else [], event?⟩
      entry.tickCount.toNat entry.gameTime.nanos := by
  have hmillis : entry.gameTime.toMillis.toNat = entry.gameTime.nanos / nanosPerMilli := by
    rw [Duration.toMillis, Count.toNat_ofNat]
    exact Nat.min_eq_left (Nat.le_trans (Nat.div_le_self _ _) hfits)
  cases publishes with
  | false => rfl
  | true => exact congrArg (fun millis => [(entry.tickCount.toNat, millis)]) hmillis

/-- An advance begins: the registry goes ahead of the log by one tick, and what goes out is the
entry. -/
theorem Agrees.begins (h : v.Agrees a advances) {t t' : Ticker} {entry : World}
    (hticker : v.ticker = some t) (hentry : v.entry = some entry)
    (hbegins : t.phase.begins t'.phase = true) (hbefore : t.phase.isUnwritten = false)
    (hafter : t'.phase.isUnwritten = true) (hdelta : t'.delta = t.delta)
    (hticker' : v'.ticker = some t') (hentry' : v'.entry = some (entry.ticked t.delta m.wall))
    (hevents : v'.events = v.events)
    (hfits : (entry.ticked t.delta m.wall).gameTime.nanos ≤ Count.greatest)
    (hfew : advances.length < Count.greatest) : v'.Agrees a (v.note w v' advances) := by
  obtain ⟨hcount, htime⟩ := h.entry entry hentry ((isUnwritten_eq hticker).trans hbefore)
  have hadvances : (ticksOf v.events).length ≤ advances.length := by
    rw [← h.stored]
    exact List.length_filterMap_le _ _
  have hnext : entry.tickCount.next.toNat = (ticksOf v.events).length + 1 := by
    rw [Count.toNat_next, hcount]
    exact Nat.min_eq_left (Nat.lt_of_le_of_lt hadvances hfew)
  have hsum : (entry.gameTime.add t.delta).nanos =
      t.delta.nanos + tickedNanos (ticksOf v.events) := by
    have hmax : Count.greatest < Duration.maxNanos := by decide
    change (entry.gameTime.add t.delta).nanos ≤ _ at hfits
    rw [Duration.nanos_add] at hfits ⊢
    omega
  rw [note_of_begins hticker hbegins hticker' hentry' hevents]
  refine ⟨hevents ▸ h.tallies, hevents ▸ h.story, ?_, ?_, hevents ▸ h.stored, ?_⟩
  · intro entry' _ hwritten
    rw [isUnwritten_eq hticker', hafter] at hwritten
    cases hwritten
  · intro t'' entry' ht he _
    obtain rfl := Option.some.inj (hticker'.symm.trans ht)
    obtain rfl := Option.some.inj (hentry'.symm.trans he)
    rw [hevents]
    exact ⟨hnext, by rw [hdelta]; exact hsum, _, _, rfl, rfl, shows_snapshot _ _ hfits none⟩
  · exact List.forall_mem_cons.mpr ⟨by rintro e ⟨⟩, h.shown⟩

/-- The event of an advance takes the log to where the entry is. -/
theorem Unwritten.isTallyOf {t : Ticker} {entry : World} {events : List Event}
    (h : Unwritten t entry events advances) {e : Event} {d : TickedDetails}
    (htick : e.tick? = some d) (hdelta : d.tickNanos = t.delta.toNanoCount)
    (hfits : entry.gameTime.nanos ≤ Count.greatest) :
    IsTallyOf (e :: ticksOf events) entry.tickCount entry.gameTime where
  tickCount := h.tickCount
  gameTime := by
    have htime := h.gameTime
    have hle : t.delta.nanos ≤ Count.greatest := by omega
    rw [tickedNanos_cons htick, hdelta, Duration.toNat_toNanoCount hle, htime]

theorem note_of_written {t t' : Ticker} (hticker : v.ticker = some t)
    (hticking : t.phase.isTicking = true) (hticker' : v'.ticker = some t') {e : Event}
    (hkind : e.kind? = some .ticked) (hevents : v'.events = e :: v.events) {latest : Advance}
    (hnone : latest.event? = none) (earlier : List Advance) :
    v.note w v' (latest :: earlier) = { latest with event? := some e } :: earlier := by
  rw [note, View.begins_eq hticker hticker', Phase.begins_of_before hticking,
    newTick?_of_cons hevents, ticksOf_cons_of_tick hkind]
  simp [Advance.note, hnone]

/-- The log takes the event of an advance. -/
theorem Agrees.written (hv : v.IsSound w a) (h : v.Agrees a advances) {t t' : Ticker}
    {cause : TickCause} {gameTime : Duration} {f : Filing} (hticker : v.ticker = some t)
    (hphase : t.phase = .recording cause gameTime f) (hverdict : f.verdict = none)
    (hticker' : v'.ticker = some t') (hafter : t'.phase.isUnwritten = false)
    (hentry' : v'.entry = v.entry) (hevents : v'.events = f.event :: v.events)
    (hfits : ∀ entry, v'.entry = some entry → entry.gameTime.nanos ≤ Count.greatest) :
    v'.Agrees a (v.note w v' advances) := by
  have hfiling : v.filing? = some f := by
    rw [filing?_of_ticker hticker, Ticker.filing?, hphase]
  have hbefore : t.phase.isUnwritten = true := by
    rw [hphase, Phase.isUnwritten, Filing.isStored, hverdict]
    rfl
  obtain ⟨entry, hentry, -, htells⟩ :=
    hv.attuned.tick_tells hv.chronicled hv.coherent hticker hphase
  have htick := htells.tick?_eq
  have hticks : ticksOf v'.events = f.event :: ticksOf v.events := by
    rw [hevents, ticksOf_cons_of_tick htells.kind]
  have hunwritten := h.unwritten t entry hticker hentry hbefore
  obtain ⟨latest, earlier, rfl, hnone, hshows⟩ := hunwritten.latest
  have hfitsEntry := hfits entry (hentry'.trans hentry)
  have htally := hunwritten.isTallyOf htick rfl hfitsEntry
  have htold : entry.gameTime.toNanoCount.toNat = entry.gameTime.nanos :=
    Duration.toNat_toNanoCount hfitsEntry
  rw [note_of_written hticker (by rw [hphase]; rfl) hticker' htells.kind hevents hnone]
  refine ⟨?_, ?_, ?_, ?_, ?_, ?_⟩
  · rw [hticks]
    exact .cons htick htally.tickCount (htold.trans htally.gameTime) h.tallies
  · intro t' hstory
    rw [hevents] at hstory ⊢
    refine h.story_cons hv hfiling (fun entry' he => ?_) hstory
    obtain rfl := Option.some.inj (hentry.symm.trans he)
    rw [ticksOf_cons_of_tick htells.kind]
    exact ⟨hfitsEntry, htally⟩
  · intro entry' he _
    obtain rfl := Option.some.inj ((hentry'.trans hentry).symm.trans he)
    exact hticks ▸ htally
  · intro t'' entry' ht he hunwritten
    obtain rfl := Option.some.inj (hticker'.symm.trans ht)
    rw [hafter] at hunwritten
    cases hunwritten
  · have hstored := h.stored
    rw [List.filterMap_cons_none hnone] at hstored
    rw [hticks, ← hstored]
    exact List.filterMap_cons_some rfl
  · refine List.forall_mem_cons.mpr ⟨fun e he => ?_, fun advance hmem =>
      h.shown advance (List.mem_cons_of_mem _ hmem)⟩
    cases he
    rw [← htold] at hshows
    exact ⟨_, htick, hshows⟩

/-- An advance goes on, or there is still none. -/
theorem Agrees.goOn (h : v.Agrees a advances) {t t' : Ticker} (hticker : v.ticker = some t)
    (hticker' : v'.ticker = some t') (hsame : t'.phase.isUnwritten = t.phase.isUnwritten)
    (hdelta : t'.delta = t.delta) (hentry' : v'.entry = v.entry) (hevents : v'.events = v.events) :
    v'.Agrees a advances where
  tallies := hevents ▸ h.tallies
  story := hevents ▸ h.story
  entry entry he hwritten := by
    rw [hentry'] at he
    rw [isUnwritten_eq hticker', hsame, ← isUnwritten_eq hticker] at hwritten
    exact hevents ▸ h.entry entry he hwritten
  unwritten t'' entry ht he hunwritten := by
    obtain rfl := Option.some.inj (hticker'.symm.trans ht)
    rw [hentry'] at he
    rw [hsame] at hunwritten
    obtain ⟨hcount, htime, hlatest⟩ := h.unwritten t entry hticker he hunwritten
    rw [hevents]
    exact ⟨hcount, by rw [hdelta, htime], hlatest⟩
  stored := hevents ▸ h.stored
  shown := h.shown

/-- A step of a ticker. -/
theorem Agrees.goes (h : v.Agrees a advances) {t t' : Ticker} {entry entry' : World}
    (hticker : v.ticker = some t) (hentry : v.entry = some entry)
    (hgoes : t.Goes w m entry t' entry')
    (hv' : v' = { v with ticker := some t', entry := some entry' })
    (hstores : v.loses v' = false) (hunbroken : (v.isUnwritten && v'.isBroken) = false)
    (hfits : ∀ entry, v'.entry = some entry → entry.gameTime.nanos ≤ Count.greatest)
    (hfew : (v.note w v' advances).length ≤ Count.greatest) :
    v'.Agrees a (v.note w v' advances) := by
  have hticker' : v'.ticker = some t' := by rw [hv']
  have hentry' : v'.entry = some entry' := by rw [hv']
  have hevents : v'.events = v.events := by rw [hv']
  have hnew := newTick?_of_eq hevents
  -- All but two kinds of steps lead from one entry to another with the same totals.
  have hrest (hbegins : t.phase.begins t'.phase = false) (hbefore : t.phase.isUnwritten = false)
      (hafter : t'.phase.isUnwritten = false)
      (htotals : entry'.tickCount = entry.tickCount ∧ entry'.gameTime = entry.gameTime) :
      v'.Agrees a (v.note w v' advances) := by
    rw [note_of_rest ((View.begins_eq hticker hticker').trans hbegins) hnew]
    refine h.rest hevents (fun entry'' he => ?_) ((isUnwritten_eq hticker').trans hafter)
    obtain rfl := Option.some.inj (hentry'.symm.trans he)
    rw [htotals.1, htotals.2]
    exact h.entry entry hentry ((isUnwritten_eq hticker).trans hbefore)
  cases hgoes.advances with
  | begins hbegins hbefore hafter hdelta hticked =>
    subst hticked
    refine h.begins hticker hentry hbegins hbefore hafter hdelta hticker' hentry' hevents
      (hfits _ hentry') ?_
    rw [note, View.begins_eq hticker hticker', hbegins] at hfew
    exact hfew
  | writes hbegins hsame hdelta hentry'' =>
    rw [note_of_rest ((View.begins_eq hticker hticker').trans hbegins) hnew]
    exact h.goOn hticker hticker' hsame hdelta (by rw [hentry', hentry, hentry'']) hevents
  | ends hbegins hfiling hbefore hover hafter htotals =>
    have hsound : v'.isBroken = false := by rw [isBroken, hticker', Option.any_some, hafter.2]
    have hstored := isStored_of_loses hstores ((filing?_of_ticker hticker).trans hfiling)
      ((filing?_of_ticker hticker').trans hover) hsound
    rw [← Filing.isStored_iff] at hstored
    exact hrest hbegins (by rw [hbefore, hstored]; rfl) hafter.1 htotals
  | breaks hbegins hafter hbroken hentry'' =>
    have hbroken' : v'.isBroken = true := by rw [isBroken, hticker', Option.any_some, hbroken]
    rw [hbroken', Bool.and_true, isUnwritten_eq hticker] at hunbroken
    exact hrest hbegins hunbroken hafter (by rw [hentry'']; exact ⟨rfl, rfl⟩)
  | rests hbegins hbefore hafter htotals => exact hrest hbegins hbefore hafter htotals

/-- A step of a world's process keeps registry, log and broadcasts in agreement, if it loses no
event, breaks no ticker down in the middle of an advance and does not overstep what events can
tell. -/
theorem Step.agrees (hv : v.IsSound w a) (hsteps : v.Step w m a v') (h : v.Agrees a advances)
    (hstores : v.loses v' = false) (hunbroken : (v.isUnwritten && v'.isBroken) = false)
    (hfits : ∀ entry, v'.entry = some entry → entry.gameTime.nanos ≤ Count.greatest)
    (hfew : (v.note w v' advances).length ≤ Count.greatest) :
    v'.Agrees a (v.note w v' advances) := by
  have hc := hv.coherent
  have hidle (hticker : v.ticker = none) : v.isUnwritten = false := by
    rw [isUnwritten, hticker, Option.any_none]
  -- Steps of errands, with no ticker before or none after.
  have hrest (hbegins : v.ticker = none ∨ v'.ticker = none) (hevents : v'.events = v.events)
      (hafter : v'.isUnwritten = false) (hentry : ∀ entry, v'.entry = some entry →
        IsTallyOf (ticksOf v.events) entry.tickCount entry.gameTime) :
      v'.Agrees a (v.note w v' advances) := by
    rw [note_of_rest (begins_of_none hbegins) (newTick?_of_eq hevents)]
    exact h.rest hevents hentry hafter
  have hgoOn {t t' : Ticker} (hticker : v.ticker = some t) (hticker' : v'.ticker = some t')
      (hbegins : t.phase.begins t'.phase = false)
      (hsame : t'.phase.isUnwritten = t.phase.isUnwritten) (hdelta : t'.delta = t.delta)
      (hentry : v'.entry = v.entry) (hevents : v'.events = v.events) :
      v'.Agrees a (v.note w v' advances) := by
    rw [note_of_rest ((View.begins_eq hticker hticker').trans hbegins) (newTick?_of_eq hevents)]
    exact h.goOn hticker hticker' hsame hdelta hentry hevents
  have hfiled {f f' : Filing} (hfiling : v.filing? = some f)
      (hfiles : f.Files v.events f' v'.events) (hentry : v'.entry = v.entry)
      (hbegins : v.begins v' = false) (hbefore : v.isUnwritten = false)
      (hafter : v'.isUnwritten = false) (hkind : f.event.kind? ≠ some .ticked) :
      v'.Agrees a (v.note w v' advances) := by
    obtain ⟨hnew, hagrees⟩ := h.filed hv hfiling hfiles hkind hentry hbefore hafter hfits
    rw [note_of_rest hbegins hnew]
    exact hagrees
  cases hsteps with
  | askKnown hworld herrand hticker | askUnknown hworld herrand hticker =>
    exact hrest (.inl hticker) rfl (hidle hticker) fun entry he => h.entry entry he (hidle hticker)
  | create herrand | announce herrand =>
    have hticker := hc.ticker_eq_none herrand
    exact hrest (.inl hticker) rfl (hidle hticker) fun entry he => h.entry entry he (hidle hticker)
  | restore herrand hworld hhistory =>
    have hticker := hc.ticker_eq_none herrand
    obtain ⟨t, hstory, hrestored⟩ := hv.chronicled.story_of_restore hhistory
    refine hrest (.inl hticker) rfl (hidle hticker) fun entry he => ?_
    cases he
    rw [← hrestored]
    exact h.story t hstory
  | takeUp herrand hannounce hentry hnew | takeUpAnnounced herrand hfiled hentry hnew =>
    have hticker := hc.ticker_eq_none herrand
    obtain ⟨delta, -, rfl⟩ := Option.map_eq_some_iff.mp hnew
    refine hrest (.inl hticker) rfl rfl fun entry he => ?_
    cases he
    obtain ⟨hcount, htime⟩ := h.entry _ hentry (hidle hticker)
    exact ⟨hcount, htime⟩
  | enroll herrand hstored hnew =>
    have hticker := hc.ticker_eq_none herrand
    obtain ⟨now, hevent, -, hfirst⟩ := hv.chronicled.creation _ _ herrand
    obtain ⟨delta, -, rfl⟩ := Option.map_eq_some_iff.mp hnew
    refine hrest (.inl hticker) rfl rfl fun entry he => ?_
    cases he
    rw [hfirst hstored, ticksOf_cons_of_ne (by
      rw [hevent, SpawnOrder.creation, Event.kind?_ofWorld]
      rintro ⟨⟩)]
    exact ⟨rfl, rfl⟩
  | fileCreation herrand hfiles =>
    have hticker := hc.ticker_eq_none herrand
    obtain ⟨now, hevent, -⟩ := hv.chronicled.creation _ _ herrand
    refine hfiled (filing?_of_errand hticker herrand) hfiles rfl
      (begins_of_none (.inl hticker)) (hidle hticker) (hidle hticker) ?_
    rw [hevent, SpawnOrder.creation, Event.kind?_ofWorld]
    rintro ⟨⟩
  | fileAnnouncement herrand hfiles =>
    have hticker := hc.ticker_eq_none herrand
    obtain ⟨-, -, d, htells⟩ := hv.attuned.announcing_tells hv.chronicled herrand
    refine hfiled (filing?_of_errand hticker herrand) hfiles rfl
      (begins_of_none (.inl hticker)) (hidle hticker) (hidle hticker) ?_
    rw [htells.kind]
    rintro ⟨⟩
  | filePause herrand hfiles =>
    have hticker := hc.ticker_eq_none_of_ne herrand (by rintro ⟨⟩)
    obtain ⟨-, -, pausedAt, -, htells⟩ := hv.attuned.pause_tells hv.chronicled herrand
    refine hfiled (filing?_of_errand hticker herrand) hfiles rfl
      (begins_of_none (.inl hticker)) (hidle hticker) (hidle hticker) ?_
    rw [htells.kind]
    rintro ⟨⟩
  | giveUp herrand hjoining =>
    have hticker := hc.ticker_eq_none_of_ne herrand hjoining
    exact hrest (.inl hticker) rfl (hidle hticker) fun entry he => h.entry entry he (hidle hticker)
  | @askStop t herrand hticker hstop =>
    exact hgoOn hticker rfl (Phase.begins_self t.phase) rfl rfl rfl rfl
  | pause herrand hticker hphase hentry =>
    refine hrest (.inr rfl) rfl rfl fun entry he => ?_
    cases he
    have hbefore : v.isUnwritten = false := by
      rw [isUnwritten_eq hticker, hphase]
      rfl
    obtain ⟨hcount, htime⟩ := h.entry _ hentry hbefore
    exact ⟨hcount, htime⟩
  | breakDown herrand hticker hphase =>
    refine hrest (.inr rfl) rfl rfl fun entry he => h.entry entry he ?_
    rw [isUnwritten_eq hticker, hphase]
    rfl
  | pauseBroken herrand hentry =>
    have hticker := hc.ticker_eq_none_of_ne herrand (by rintro ⟨⟩)
    refine hrest (.inl hticker) rfl rfl fun entry he => ?_
    cases he
    obtain ⟨hcount, htime⟩ := h.entry _ hentry (hidle hticker)
    exact ⟨hcount, htime⟩
  | goes hticker hentry hgoes =>
    exact h.goes hticker hentry hgoes rfl hstores hunbroken hfits hfew
  | @fileTick t cause gameTime f f' events' hticker hphase hfiles =>
    have hbegins : t.phase.begins (.recording cause gameTime f') = false :=
      Phase.begins_of_before (by rw [hphase]; rfl) _
    cases hfiles with
    | again => exact hgoOn hticker rfl hbegins (by rw [hphase]) rfl rfl rfl
    | stored hverdict =>
      exact h.written hv hticker hphase hverdict rfl rfl rfl rfl hfits
    | refused error hverdict =>
      refine hgoOn hticker rfl hbegins ?_ rfl rfl rfl
      rw [hphase, Phase.isUnwritten, Phase.isUnwritten, Filing.isStored, Filing.isStored, hverdict]
  | @fileResumption t run f f' events' hticker hphase hfiles =>
    obtain ⟨entry, -, -, htells⟩ :=
      hv.attuned.resumption_tells hv.chronicled hc hticker hphase
    refine hfiled ((filing?_of_ticker hticker).trans ?_) hfiles rfl ?_ ?_ rfl ?_
    · rw [Ticker.filing?, hphase]
    · exact (View.begins_eq hticker rfl).trans (Phase.begins_of_after t.phase rfl)
    · rw [isUnwritten_eq hticker, hphase]
      rfl
    · rw [htells.kind]
      rintro ⟨⟩

end View

/-! ### Courses -/

namespace Manager

/-- Whether no ticker of a world breaks down between what an advance does to the registry and the
storing of its event. -/
def endsAdvances (p : Manager) (a : WorldId) (course : List Incident) : Bool :=
  p.throughout a (fun v _ v' => !(v.isUnwritten && v'.isBroken)) course

/-- Whether events can always tell the game time of a world. -/
def isTellable (p : Manager) (a : WorldId) (course : List Incident) : Bool :=
  p.throughout a
    (fun _ _ v' => v'.entry.all fun entry => decide (entry.gameTime.nanos ≤ Count.greatest)) course

theorem noteAdvance_meet {p : Manager} (hp : p.Coherent) (i : Incident) (a : WorldId)
    (advances : List Advance) : p.noteAdvance (p.meet i) a advances =
      (p.viewOf a).note p.wiring ((p.meet i).viewOf a) advances := by
  rw [noteAdvance, publishedSince_meet hp]
  rfl

theorem agrees_live {p : Manager} (hp : p.Coherent) {a : WorldId}
    (hsound : (p.viewOf a).IsSound p.wiring a) {course : List Incident}
    (hown : ∀ i ∈ course, i.IsOwn) (hstores : p.storesAll a course = true)
    (hends : p.endsAdvances a course = true) (htellable : p.isTellable a course = true)
    {noted : List Advance} (hfew : (p.noteAdvances a noted course).length ≤ Count.greatest)
    (hagrees : (p.viewOf a).Agrees a noted) :
    ((p.live course).viewOf a).Agrees a (p.noteAdvances a noted course) := by
  induction course generalizing p noted with
  | nil => exact hagrees
  | cons i course ih =>
    have hi : i.IsOwn := hown i List.mem_cons_self
    have hsound' := isSound_meet hp hsound hi
    rw [storesAll, throughout, Bool.and_eq_true] at hstores
    rw [endsAdvances, throughout, Bool.and_eq_true] at hends
    rw [isTellable, throughout, Bool.and_eq_true] at htellable
    rw [noteAdvances] at hfew ⊢
    refine ih (hp.meet i) hsound' (fun j hj => hown j (List.mem_cons_of_mem _ hj)) hstores.2
      hends.2 htellable.2 hfew ?_
    have hfew' := Nat.le_trans (length_le_noteAdvances _ a _ course) hfew
    rw [noteAdvance_meet hp i] at hfew' ⊢
    cases i with
    | move m move =>
      obtain hview | hsteps := apply_step hp m hi a
      · have hstay : (p.meet (.move m move)).viewOf a = p.viewOf a := hview
        rw [hstay, View.note_of_rest (View.begins_of_ticker_eq rfl) (View.newTick?_of_eq rfl)]
        exact hagrees
      · refine View.Step.agrees hsound hsteps hagrees (by simpa using hstores.1)
          (by simpa only [Bool.not_eq_true'] using hends.1) (fun entry hentry => ?_) hfew'
        exact of_decide_eq_true ((Option.all_eq_true _ _).mp htellable.1 entry hentry)
    | death wiring projections =>
      have hview : (p.meet (.death wiring projections)).viewOf a = (p.viewOf a).afterDeath := rfl
      have hnote : (p.viewOf a).note p.wiring (p.viewOf a).afterDeath noted = noted :=
        View.note_of_rest (View.begins_of_none (.inr rfl)) (View.newTick?_of_eq rfl)
      rw [hview, hnote]
      exact hagrees.rest rfl (by rintro entry ⟨⟩) rfl

/-- Whatever happens to a world that nobody wrote about before, the registry, the log and what was
published agree on it, provided that the log takes every event of it, that no ticker breaks down
between the first and the last part of an advance, and that its ticks can be counted and its game
time told in 64 bits. The events of its ticks are those of its advances. -/
theorem totals_agree {w : Wiring} (hw : w.IsUsable) {log : EventLog}
    (projections : Option (Dispatcher ReadModel)) {a : WorldId} (hfresh : log.about a = [])
    {course : List Incident} (hown : ∀ i ∈ course, i.IsOwn)
    (hstores : (start w log projections).storesAll a course = true)
    (hends : (start w log projections).endsAdvances a course = true)
    (htellable : (start w log projections).isTellable a course = true)
    (hfew : ((start w log projections).advances a course).length ≤ Count.greatest) :
    let p := (start w log projections).live course
    let ticks := ticksOf (p.surroundings.log.byAggregate a.text 1)
    let advances := (start w log projections).advances a course
    (∀ entry, p.surroundings.registry.get? a = some entry → (p.viewOf a).isUnwritten = false →
      entry.tickCount.toNat = ticks.length ∧ entry.gameTime.nanos = tickedNanos ticks) ∧
    advances.filterMap (·.event?) = ticks ∧
    ∀ i e, ticks[i]? = some e → ∃ d, e.tick? = some d ∧ d.tickCount.toNat = i + 1 ∧
      d.gameTimeNanos.toNat = tickedNanos (ticks.take (i + 1)) ∧
      ∀ advance ∈ advances, advance.event? = some e →
        advance.Shows (i + 1) (tickedNanos (ticks.take (i + 1))) := by
  have hempty : ((start w log projections).viewOf a).Agrees a [] := by
    rw [viewOf_start w projections hfresh]
    refine ⟨.nil, fun t hstory => absurd rfl hstory.ne_nil, by rintro entry ⟨⟩,
      by rintro t entry ⟨⟩, rfl, by rintro advance ⟨⟩⟩
  have hcounted : ((start w log projections).noteAdvances a [] course).length ≤ Count.greatest := by
    rwa [advances, List.length_reverse] at hfew
  have hsound := isSound_live hw projections hfresh hown
  have hagrees := agrees_live (coherent_start w log projections)
    (isSound_start hw projections hfresh) hown hstores hends htellable hcounted hempty
  intro p ticks advances
  have hticks : ticks = (ticksOf (p.viewOf a).events).reverse := by
    change ticksOf (p.surroundings.log.byAggregate a.text 1) = _
    rw [EventLog.byAggregate_eq hsound.chronicled.ascends]
    exact List.filter_reverse
  refine ⟨fun entry hentry hwritten => ?_, ?_, fun i e he => ?_⟩
  · obtain ⟨hcount, htime⟩ := hagrees.entry entry hentry hwritten
    rw [hticks, List.length_reverse, tickedNanos_reverse]
    exact ⟨hcount, htime⟩
  · rw [hticks, ← hagrees.stored]
    exact List.filterMap_reverse
  · rw [hticks] at he ⊢
    obtain ⟨d, htick, hcount, htime⟩ := hagrees.tallies.tells he
    refine ⟨d, htick, hcount, htime, fun advance hmem hevent => ?_⟩
    obtain ⟨d', htick', hshows⟩ := hagrees.shown advance (List.mem_reverse.mp hmem) e hevent
    obtain rfl := Option.some.inj (htick.symm.trans htick')
    rw [hcount, htime] at hshows
    exact hshows

/-- A process that publishes. -/
def publishing : Wiring := { Wiring.standard with publishes := true }

theorem isUsable_publishing : publishing.IsUsable := ⟨.standard, true, false, rfl⟩

/-- A world is created, and its first tick is on its way out. -/
def aheadOnce (world : WorldId) : List Incident :=
  [.move (momentAt 0) (.spawn ⟨world, "world", .one⟩), .move (momentAt 0) (.read none),
    .move (momentAt 0) .file, .move (momentAt 0) (.conclude .answered),
    .move (momentAt 0) (.poll world), .move (momentAt 100) (.poll world)]

/-- Its process dies. The next one restores the world, which makes up for two ticks. -/
def recoveredOnce (world : WorldId) : List Incident :=
  let tick (reply : Reply CallError) : List Incident :=
    [.move (momentAt 250) (.poll world), .move (momentAt 250) (.answer world reply),
      .move (momentAt 250) (.fileFor world), .move (momentAt 250) (.concludeFor world .answered)]
  aheadOnce world ++
    [.death publishing none, .move (momentAt 250) (.spawn ⟨world, "world", .one⟩),
      .move (momentAt 250) (.read none), .move (momentAt 250) (.read none),
      .move (momentAt 250) .file, .move (momentAt 250) (.conclude .answered),
      .move (momentAt 250) (.poll world)] ++ tick .answered ++ tick .timedOut

theorem isOwn_recoveredOnce (world : WorldId) : ∀ i ∈ recoveredOnce world, i.IsOwn := by
  simp [recoveredOnce, aheadOnce, Incident.IsOwn, Move.isOwn, isUsable_publishing]

theorem totals_agree_of_recoveredOnce :
    let p := (start publishing .empty none).live (recoveredOnce ⟨⟨0⟩⟩)
    let ticks := ticksOf (p.surroundings.log.byAggregate (WorldId.text ⟨⟨0⟩⟩) 1)
    let advances := (start publishing .empty none).advances ⟨⟨0⟩⟩ (recoveredOnce ⟨⟨0⟩⟩)
    advances.length = 3 ∧ ticks.length = 2 ∧ tickedNanos ticks = 200000000 ∧
    advances.filterMap (·.event?) = ticks ∧
    ∀ i e, ticks[i]? = some e → ∃ d, e.tick? = some d ∧ d.tickCount.toNat = i + 1 ∧
      d.gameTimeNanos.toNat = tickedNanos (ticks.take (i + 1)) ∧
      ∀ advance ∈ advances, advance.event? = some e →
        advance.Shows (i + 1) (tickedNanos (ticks.take (i + 1))) := by
  -- One computation, so that the world is restored only once.
  have hchecked : (start publishing .empty none).storesAll ⟨⟨0⟩⟩ (recoveredOnce ⟨⟨0⟩⟩) = true ∧
      (start publishing .empty none).endsAdvances ⟨⟨0⟩⟩ (recoveredOnce ⟨⟨0⟩⟩) = true ∧
      (start publishing .empty none).isTellable ⟨⟨0⟩⟩ (recoveredOnce ⟨⟨0⟩⟩) = true ∧
      ((start publishing .empty none).advances ⟨⟨0⟩⟩ (recoveredOnce ⟨⟨0⟩⟩)).length = 3 ∧
      (((start publishing .empty none).live (recoveredOnce ⟨⟨0⟩⟩)).viewOf ⟨⟨0⟩⟩).isUnwritten =
        false ∧
      (((start publishing .empty none).live (recoveredOnce ⟨⟨0⟩⟩)).surroundings.registry.get?
        ⟨⟨0⟩⟩).any (fun entry =>
          decide (entry.tickCount.toNat = 2 ∧ entry.gameTime.nanos = 200000000)) = true := by
    decide +kernel
  obtain ⟨hstores, hends, htellable, hthree, hwritten, hknown⟩ := hchecked
  have hfresh : EventLog.empty.about ⟨⟨0⟩⟩ = [] := rfl
  obtain ⟨htotals, hstored, htold⟩ := totals_agree isUsable_publishing none hfresh
    (isOwn_recoveredOnce ⟨⟨0⟩⟩) hstores hends htellable (by rw [hthree]; decide)
  obtain ⟨entry, hget, hentry⟩ := (Option.any_eq_true _ _).mp hknown
  obtain ⟨htwo, htime⟩ := of_decide_eq_true hentry
  obtain ⟨hcount, hnanos⟩ := htotals entry hget hwritten
  exact ⟨hthree, hcount.symm.trans htwo, hnanos.symm.trans htime, hstored, htold⟩

/-- Or its ticker breaks down. -/
def brokenOnce (world : WorldId) : List Incident :=
  aheadOnce world ++ [.move (momentAt 100) (.crash world "publish panicked")]

/-- A ticker that breaks down in the middle of an advance leaves an entry with a tick that is not
stored, though the log has taken every event that it was given. -/
theorem untold_of_brokenOnce :
    let p := (start publishing .empty none).live (brokenOnce ⟨⟨0⟩⟩)
    (∀ i ∈ brokenOnce ⟨⟨0⟩⟩, i.IsOwn) ∧
    (start publishing .empty none).storesAll ⟨⟨0⟩⟩ (brokenOnce ⟨⟨0⟩⟩) = true ∧
    (start publishing .empty none).isTellable ⟨⟨0⟩⟩ (brokenOnce ⟨⟨0⟩⟩) = true ∧
    ((start publishing .empty none).advances ⟨⟨0⟩⟩ (brokenOnce ⟨⟨0⟩⟩)).length = 1 ∧
    (p.viewOf ⟨⟨0⟩⟩).isUnwritten = false ∧
    ∃ entry, p.surroundings.registry.get? ⟨⟨0⟩⟩ = some entry ∧ entry.tickCount.toNat ≠
      (ticksOf (p.surroundings.log.byAggregate (WorldId.text ⟨⟨0⟩⟩) 1)).length := by
  have hahead : (((start publishing .empty none).live
      (brokenOnce ⟨⟨0⟩⟩)).surroundings.registry.get? ⟨⟨0⟩⟩).any (fun entry =>
        decide (entry.tickCount.toNat ≠ (ticksOf (((start publishing .empty none).live
          (brokenOnce ⟨⟨0⟩⟩)).surroundings.log.byAggregate (WorldId.text ⟨⟨0⟩⟩) 1)).length)) =
      true := by
    decide +kernel
  obtain ⟨entry, hentry, hne⟩ := (Option.any_eq_true _ _).mp hahead
  refine ⟨?_, by decide +kernel, by decide +kernel, by decide +kernel, by decide +kernel,
    entry, hentry, of_decide_eq_true hne⟩
  simp [brokenOnce, aheadOnce, Incident.IsOwn, Move.isOwn]

end Manager

end WorldClock
