import WorldClock.Event.Basic
import WorldClock.Proofs.Instants
import WorldClock.Proofs.Json.Reals
import WorldClock.Proofs.Json.Records
import WorldClock.Settings.Clock

/-!
# Payloads read back

What a tick, a pause or a completed catch-up tells is read back exactly. A creation is read back but
for its dilation, which may come out beside the one that was written; that it is read back at all
needs a finite dilation, and such is every dilation that a ticker accepts.
-/

namespace WorldClock

open Json

theorem Json.isWritten_ofOption_toJson (t : Option Instant) :
    (ofOption Instant.toJson t).IsWritten := by
  cases t with
  | none => trivial
  | some t => exact isWritten_ofText t.text

theorem Instant.ofJson?_toJson (t : Instant) : Instant.ofJson? t.toJson = some t := by
  rw [Instant.ofJson?, Instant.toJson, toText?_ofText, Option.bind_some, Instant.ofText?_text]

@[simp]
theorem Instant.nullable?_ofOption (t : Option Instant) :
    nullable? Instant.ofJson? (ofOption Instant.toJson t) = some t := by
  cases t with
  | none => rfl
  | some t =>
    change (Instant.ofJson? t.toJson).map some = _
    rw [Instant.ofJson?_toJson, Option.map_some]

/-- Any dilation that gives a tick is finite. -/
theorem Binary64.isFinite_of_tickDelta? {interval : Duration} {dilation : Binary64}
    (h : (ClockSettings.tickDelta? interval dilation).isSome = true) :
    dilation.isFinite = true := by
  rw [ClockSettings.tickDelta?] at h
  split at h
  · next haccepted => exact isFinite_of_isPositive haccepted.1
  · cases h

namespace TickedDetails

theorem isWritten_toJson (d : TickedDetails) : d.toJson.IsWritten := by
  refine isWritten_ofMembers fun m hm => ?_
  simp only [List.mem_cons, List.not_mem_nil, or_false] at hm
  obtain rfl | rfl | rfl | rfl := hm
  · exact isWritten_ofNat _
  · exact isWritten_ofNat _
  · exact isWritten_ofNat _
  · trivial

theorem ofJson?_toJson (d : TickedDetails) : ofJson? d.toJson = some d := by
  rw [ofJson?, toJson, record?_ofMembers]
  · simp
  · rfl
  · decide

end TickedDetails

namespace PausedDetails

theorem isWritten_toJson (d : PausedDetails) : d.toJson.IsWritten := by
  refine isWritten_ofMembers fun m hm => ?_
  simp only [List.mem_cons, List.not_mem_nil, or_false] at hm
  obtain rfl | rfl | rfl | rfl := hm
  · exact isWritten_ofNat _
  · exact isWritten_ofNat _
  · exact isWritten_ofOption_toJson _
  · exact isWritten_ofNat _

theorem ofJson?_toJson (d : PausedDetails) : ofJson? d.toJson = some d := by
  rw [ofJson?, toJson, record?_ofMembers]
  · simp
  · rfl
  · decide

end PausedDetails

namespace ResumedDetails

theorem isWritten_toJson (d : ResumedDetails) : d.toJson.IsWritten := by
  refine isWritten_ofMembers fun m hm => ?_
  simp only [List.mem_cons, List.not_mem_nil, or_false] at hm
  obtain rfl | rfl := hm
  · exact isWritten_ofNat _
  · exact isWritten_ofNat _

theorem ofJson?_toJson (d : ResumedDetails) : ofJson? d.toJson = some d := by
  rw [ofJson?, toJson, record?_ofMembers]
  · simp
  · rfl
  · decide

end ResumedDetails

namespace CreatedDetails

theorem isWritten_toJson {d : CreatedDetails} (h : d.dilation.isFinite = true) :
    d.toJson.IsWritten := by
  refine isWritten_ofMembers fun m hm => ?_
  simp only [List.mem_cons, List.not_mem_nil, or_false] at hm
  obtain rfl | rfl | rfl := hm
  · exact isWritten_ofText _
  · exact isWritten_ofReal h
  · trivial

theorem ofJson?_toJson {d : CreatedDetails} (h : d.dilation.isFinite = true) :
    ∃ dilation, ofJson? d.toJson = some ⟨d.name, dilation, d.resumed⟩ := by
  obtain ⟨dilation, hdilation⟩ := Option.isSome_iff_exists.mp (toReal?_ofReal_isSome h)
  refine ⟨dilation, ?_⟩
  rw [ofJson?, toJson, record?_ofMembers]
  · simp [hdilation]
  · rfl
  · decide

end CreatedDetails

namespace Details

/-- What is told can be read back. -/
def IsReadable : Details → Prop
  | .created d => d.dilation.isFinite = true
  | .ticked _ | .paused _ | .resumed _ => True

theorem isReadable_of_kind {d : Details} (h : d.kind ≠ .created) : d.IsReadable := by
  cases d with
  | created d => exact absurd rfl h
  | ticked d | paused d | resumed d => trivial

/-- Two records that tell the same, dilations left aside. -/
def Agrees : Details → Details → Prop
  | .created d, .created d' => d.name = d'.name ∧ d.resumed = d'.resumed
  | d, d' => d = d'

theorem isWritten_toJson {d : Details} (h : d.IsReadable) : d.toJson.IsWritten := by
  cases d with
  | created d => exact CreatedDetails.isWritten_toJson h
  | ticked d => exact TickedDetails.isWritten_toJson d
  | paused d => exact PausedDetails.isWritten_toJson d
  | resumed d => exact ResumedDetails.isWritten_toJson d

/-- What an event tells is read back from its bytes, a dilation left aside. -/
theorem ofBytes?_bytes {d : Details} (h : d.IsReadable) :
    ∃ d', ofBytes? d.kind d.bytes = some d' ∧ d.Agrees d' := by
  rw [ofBytes?, bytes, Json.read?_bytes (isWritten_toJson h), Option.bind_some]
  cases d with
  | created d =>
    obtain ⟨dilation, hread⟩ := CreatedDetails.ofJson?_toJson h
    refine ⟨.created ⟨d.name, dilation, d.resumed⟩, ?_, rfl, rfl⟩
    change (CreatedDetails.ofJson? d.toJson).map created = _
    rw [hread, Option.map_some]
  | ticked d =>
    refine ⟨.ticked d, ?_, rfl⟩
    change (TickedDetails.ofJson? d.toJson).map ticked = _
    rw [TickedDetails.ofJson?_toJson, Option.map_some]
  | paused d =>
    refine ⟨.paused d, ?_, rfl⟩
    change (PausedDetails.ofJson? d.toJson).map paused = _
    rw [PausedDetails.ofJson?_toJson, Option.map_some]
  | resumed d =>
    refine ⟨.resumed d, ?_, rfl⟩
    change (ResumedDetails.ofJson? d.toJson).map resumed = _
    rw [ResumedDetails.ofJson?_toJson, Option.map_some]

end Details

end WorldClock
