import WorldClock.Proofs.Event.Payloads
import WorldClock.Proofs.Identity

/-!
# Events read back

An event is read back from its text just as it was, with any bytes as its payload. A world event
also tells its kind, and what it tells is read back from its payload, though a dilation may come out
beside the one that was told (`Event.records_read_back`).
-/

namespace WorldClock

open Json

theorem Json.areWritten_map {α : Type} {encode : α → Json} (h : ∀ a, (encode a).IsWritten)
    (items : List α) : AreWritten (items.map encode) := by
  induction items with
  | nil => trivial
  | cons a items ih => exact ⟨h a, ih⟩

theorem Json.toItems?_map {α : Type} {encode : α → Json} {decode : Json → Option α}
    (h : ∀ a, decode (encode a) = some a) (items : List α) :
    toItems? decode (.array (items.map encode)) = some items := by
  rw [toItems?]
  induction items with
  | nil => rfl
  | cons a items ih => simp [h, ih]

@[simp]
theorem EventId.ofJson?_toJson (e : EventId) : EventId.ofJson? e.toJson = some e := by
  rw [EventId.ofJson?, EventId.toJson, toText?_ofText, Option.bind_some, EventId.ofText?,
    EventId.text, Identifier.ofText?_text, Option.map_some]

namespace Event

theorem byteOfJson?_byteToJson (b : UInt8) : byteOfJson? (byteToJson b) = some b := by
  have hbyte : b.toNat ≤ 255 := Nat.le_of_lt_succ b.toNat_lt
  rw [byteOfJson?, byteToJson, toNatUpTo?_ofNat hbyte, Option.map_some, UInt8.ofNat_toNat]

theorem isWritten_toJson (e : Event) : e.toJson.IsWritten := by
  refine isWritten_ofMembers fun m hm => ?_
  simp only [List.mem_cons, List.not_mem_nil, or_false] at hm
  obtain rfl | rfl | rfl | rfl | rfl | rfl | rfl := hm
  · exact isWritten_ofText _
  · exact isWritten_ofText _
  · exact isWritten_ofText _
  · exact isWritten_ofText _
  · exact isWritten_ofNat _
  · exact isWritten_ofText _
  · exact areWritten_map (fun b => isWritten_ofNat b.toNat) e.payload

theorem ofJson?_toJson (e : Event) : ofJson? e.toJson = some e := by
  rw [ofJson?, toJson, record?_ofMembers]
  · simp [Instant.ofJson?_toJson, toItems?_map byteOfJson?_byteToJson]
  · rfl
  · decide

/-- Ticks, pauses, completed catch-ups and events are read back as they were written, whatever
numbers, flags, instants, texts and bytes they have, and so is a creation with a finite dilation but
for this dilation, which is read back as some number. An event that tells any of them has the kind
that it was given, and what it tells is read back from its payload. -/
theorem records_read_back :
    (∀ d : TickedDetails, (read? d.toJson.bytes).bind TickedDetails.ofJson? = some d) ∧
    (∀ d : PausedDetails, (read? d.toJson.bytes).bind PausedDetails.ofJson? = some d) ∧
    (∀ d : ResumedDetails, (read? d.toJson.bytes).bind ResumedDetails.ofJson? = some d) ∧
    (∀ d : CreatedDetails, d.dilation.isFinite = true → ∃ dilation,
      (read? d.toJson.bytes).bind CreatedDetails.ofJson? = some ⟨d.name, dilation, d.resumed⟩) ∧
    (∀ e : Event, (read? e.toJson.bytes).bind Event.ofJson? = some e) ∧
    ∀ world kind version now (d : Details), d.IsReadable →
      let e := ofKind world kind version now d
      e.kind? = some kind ∧ ∃ d', e.details? d.kind = some d' ∧ d.Agrees d' := by
  refine ⟨fun d => ?_, fun d => ?_, fun d => ?_, fun d h => ?_, fun e => ?_, ?_⟩
  · rw [read?_bytes d.isWritten_toJson, Option.bind_some, d.ofJson?_toJson]
  · rw [read?_bytes d.isWritten_toJson, Option.bind_some, d.ofJson?_toJson]
  · rw [read?_bytes d.isWritten_toJson, Option.bind_some, d.ofJson?_toJson]
  · rw [read?_bytes (CreatedDetails.isWritten_toJson h), Option.bind_some]
    exact CreatedDetails.ofJson?_toJson h
  · rw [read?_bytes e.isWritten_toJson, Option.bind_some, e.ofJson?_toJson]
  · intro world kind version now d h
    exact ⟨kind?_ofKind world kind version now d, Details.ofBytes?_bytes h⟩

/-- The greatest dilation, which is just small enough to be read. -/
theorem records_read_back_greatest :
    (Binary64.greatest true).isFinite = true ∧ ∃ dilation,
      (read? (CreatedDetails.mk "Aster" (.greatest true) false).toJson.bytes).bind
        CreatedDetails.ofJson? = some ⟨"Aster", dilation, false⟩ :=
  ⟨by decide, records_read_back.2.2.2.1 ⟨"Aster", .greatest true, false⟩ (by decide)⟩

end Event

end WorldClock
