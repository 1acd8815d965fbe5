import WorldClock.Proofs.Json.Numbers
import WorldClock.Proofs.Json.Strings

/-!
# Values read back

`Json.read?_bytes`: a value that is written without blanks reads back, provided its numbers are
proper and its strings and names are escaped texts (`Json.IsWritten`). The reader takes fuel, and
twice the length of what is written is enough of it: each item of an array and each member of an
object costs one step of its own besides those of its value, and is followed by at least one byte.
-/

namespace WorldClock.Json

mutual

def IsWritten : Json → Prop
  | .null => True
  | .bool _ => True
  | .number n => n.IsProper
  | .string raw => ∃ bs, raw = escape bs
  | .array items => AreWritten items
  | .object members => AreWrittenMembers members

def AreWritten : List Json → Prop
  | [] => True
  | item :: rest => item.IsWritten ∧ AreWritten rest

def AreWrittenMembers : List (Bytes × Json) → Prop
  | [] => True
  | (name, value) :: rest => (∃ bs, name = escape bs) ∧ value.IsWritten ∧ AreWrittenMembers rest

end

/-- The first byte is no blank and closes nothing. -/
def OpensValue (bs : Bytes) : Prop :=
  ∃ b rest, bs = b :: rest ∧ isBlankByte b = false ∧ b ≠ 0x5D ∧ b ≠ 0x7D

theorem toByte_opens : ∀ d : Digit, isBlankByte d.toByte = false ∧ d.toByte ≠ 0x5D ∧
    d.toByte ≠ 0x7D ∧ d.toByte ≠ 0x22 ∧ d.toByte ≠ 0x5B ∧ d.toByte ≠ 0x7B ∧ d.toByte ≠ 0x6E ∧
    d.toByte ≠ 0x74 ∧ d.toByte ≠ 0x66 := by
  decide

theorem numeralBytes_eq_cons {n : Numeral} (hn : n.IsProper) :
    ∃ b rest, numeralBytes n = b :: rest ∧ (b = 0x2D ∨ ∃ d : Digit, b = d.toByte) := by
  obtain ⟨negative, whole, fraction, exponent⟩ := n
  rw [numeralBytes_eq]
  cases negative with
  | true => exact ⟨_, _, rfl, .inl rfl⟩
  | false =>
    obtain hzero | ⟨d, ds, hcons, -⟩ := hn.whole
    · exact ⟨_, _, by rw [show whole = [0] from hzero]; rfl, .inr ⟨0, rfl⟩⟩
    · exact ⟨_, _, by rw [show whole = d :: ds from hcons]; rfl, .inr ⟨d, rfl⟩⟩

theorem IsWritten.opensValue {j : Json} (h : j.IsWritten) : OpensValue j.bytes := by
  cases j with
  | null => exact ⟨_, _, rfl, by decide⟩
  | bool b => cases b <;> exact ⟨_, _, rfl, by decide⟩
  | string raw => exact ⟨_, _, rfl, by decide⟩
  | array items => exact ⟨_, _, rfl, by decide⟩
  | object members => exact ⟨_, _, rfl, by decide⟩
  | number n =>
    obtain ⟨b, rest, hbytes, rfl | ⟨d, rfl⟩⟩ := numeralBytes_eq_cons h
    · exact ⟨_, _, hbytes, by decide⟩
    · obtain ⟨hblank, hbracket, hbrace, -⟩ := toByte_opens d
      exact ⟨_, _, hbytes, hblank, hbracket, hbrace⟩

theorem OpensValue.skipBlanks {bs : Bytes} (h : OpensValue bs) (rest : Bytes) :
    skipBlanks (bs ++ rest) = bs ++ rest := by
  obtain ⟨b, tail, rfl, hblank, -⟩ := h
  simp [Json.skipBlanks, hblank]

theorem value?_number {n : Numeral} (hn : n.IsProper) (fuel : Nat) {rest : Bytes}
    (h : EndsNumber rest) :
    value? (fuel + 1) (numeralBytes n ++ rest) = some (.number n, rest) := by
  have hread := numeral?_append hn h
  have hskip := (IsWritten.opensValue (j := .number n) hn).skipBlanks rest
  obtain ⟨b, tail, hbytes, hfirst⟩ := numeralBytes_eq_cons hn
  have hplain : b ≠ 0x22 ∧ b ≠ 0x5B ∧ b ≠ 0x7B ∧ b ≠ 0x6E ∧ b ≠ 0x74 ∧ b ≠ 0x66 := by
    obtain rfl | ⟨d, rfl⟩ := hfirst
    · decide
    · obtain ⟨-, -, -, hothers⟩ := toByte_opens d
      exact hothers
  simp only [bytes, hbytes, List.cons_append] at hskip hread ⊢
  rw [value?, hskip]
  split <;> simp_all

theorem bytes_null : Text.bytes "null" = [0x6E, 0x75, 0x6C, 0x6C] := by decide +kernel

theorem bytes_true : Text.bytes "true" = [0x74, 0x72, 0x75, 0x65] := by decide +kernel

theorem bytes_false : Text.bytes "false" = [0x66, 0x61, 0x6C, 0x73, 0x65] := by decide +kernel

theorem after?_append (start rest : Bytes) : after? start (start ++ rest) = some rest := by
  simp [after?]

theorem value?_null (fuel : Nat) (rest : Bytes) :
    value? (fuel + 1) (bytes .null ++ rest) = some (.null, rest) := by
  have hrest : after? (Text.bytes "ull") (0x75 :: 0x6C :: 0x6C :: rest) = some rest :=
    after?_append (Text.bytes "ull") rest
  rw [bytes, bytes_null]
  simp only [List.cons_append, List.nil_append, value?, skipBlanks, List.dropWhile]
  change (after? (Text.bytes "ull") (0x75 :: 0x6C :: 0x6C :: rest)).map _ = _
  rw [hrest]
  rfl

theorem value?_bool (b : Bool) (fuel : Nat) (rest : Bytes) :
    value? (fuel + 1) (bytes (.bool b) ++ rest) = some (.bool b, rest) := by
  cases b with
  | true =>
    rw [bytes, bytes_true]
    change (after? (Text.bytes "rue") (Text.bytes "rue" ++ rest)).map _ = _
    rw [after?_append]
    rfl
  | false =>
    rw [bytes, bytes_false]
    change (after? (Text.bytes "alse") (Text.bytes "alse" ++ rest)).map _ = _
    rw [after?_append]
    rfl

theorem value?_string (bs : Bytes) (fuel : Nat) (rest : Bytes) :
    value? (fuel + 1) (bytes (.string (escape bs)) ++ rest) = some (.string (escape bs), rest) := by
  have hread := string?_escape_append bs rest
  simp only [bytes, quoted, List.cons_append, List.append_assoc, List.nil_append]
  change (string? (escape bs ++ 0x22 :: rest)).map _ = _
  rw [hread]
  rfl

theorem endsNumber_comma (rest : Bytes) : EndsNumber (0x2C :: rest) := by
  intro b heq
  cases heq
  decide

theorem endsNumber_bracket (rest : Bytes) : EndsNumber (0x5D :: rest) := by
  intro b heq
  cases heq
  decide

theorem endsNumber_brace (rest : Bytes) : EndsNumber (0x7D :: rest) := by
  intro b heq
  cases heq
  decide

theorem OpensValue.append {bs : Bytes} (h : OpensValue bs) (rest : Bytes) :
    OpensValue (bs ++ rest) := by
  obtain ⟨b, tail, rfl, hb⟩ := h
  exact ⟨b, tail ++ rest, rfl, hb⟩

theorem itemsBytes_opensValue {item : Json} (h : item.IsWritten) (items : List Json) :
    OpensValue (itemsBytes (item :: items)) := by
  cases items with
  | nil => exact h.opensValue
  | cons next items => exact h.opensValue.append _

theorem value?_array {bs rest : Bytes} (hopens : OpensValue bs) (fuel : Nat) {items : List Json}
    (hitems : items? fuel (bs ++ 0x5D :: rest) = some (items, rest)) :
    value? (fuel + 1) (0x5B :: (bs ++ 0x5D :: rest)) = some (.array items, rest) := by
  have hskip := hopens.skipBlanks (0x5D :: rest)
  obtain ⟨b, tail, rfl, hblank, hbracket, -⟩ := hopens
  have hopen : skipBlanks (0x5B :: (b :: tail ++ 0x5D :: rest)) =
      0x5B :: (b :: tail ++ 0x5D :: rest) := rfl
  simp only [value?, hopen, hskip]
  split
  · next heq => exact absurd (List.cons.inj heq).1 hbracket
  · rw [hitems]
    rfl

theorem value?_object {name : Bytes} {tail rest : Bytes} (fuel : Nat)
    {members : List (Bytes × Json)}
    (hmembers : members? fuel (quoted name ++ tail) = some (members, rest)) :
    value? (fuel + 1) (0x7B :: (quoted name ++ tail)) = some (.object members, rest) := by
  change (members? fuel (quoted name ++ tail)).map _ = _
  rw [hmembers]
  rfl

mutual

theorem value?_append (j : Json) (fuel : Nat) {rest : Bytes} (hj : j.IsWritten)
    (hfuel : 2 * j.bytes.length < fuel) (hrest : EndsNumber rest) :
    value? fuel (j.bytes ++ rest) = some (j, rest) := by
  obtain ⟨fuel, rfl⟩ : ∃ n, fuel = n + 1 := ⟨fuel - 1, by omega⟩
  match j with
  | .null => exact value?_null fuel rest
  | .bool b => exact value?_bool b fuel rest
  | .number n => exact value?_number hj fuel hrest
  | .string raw =>
    obtain ⟨bs, rfl⟩ := hj
    exact value?_string bs fuel rest
  | .array [] => rfl
  | .array (item :: items) =>
    have hitems := items?_append item items fuel rest hj
      (by simp only [bytes, List.length_append, List.length_cons] at hfuel; omega)
    simp only [bytes, List.append_assoc, List.cons_append, List.nil_append]
    exact value?_array (itemsBytes_opensValue hj.1 items) fuel hitems
  | .object [] => rfl
  | .object ((name, value) :: members) =>
    have hmembers := members?_append name value members fuel rest hj
      (by simp only [bytes, List.length_append, List.length_cons] at hfuel; omega)
    cases members with
    | nil =>
      simp only [bytes, membersBytes, List.append_assoc, List.cons_append] at hmembers ⊢
      exact value?_object fuel hmembers
    | cons next members =>
      simp only [bytes, membersBytes, List.append_assoc, List.cons_append] at hmembers ⊢
      exact value?_object fuel hmembers
termination_by fuel

theorem items?_append (item : Json) (items : List Json) (fuel : Nat) (rest : Bytes)
    (hitems : AreWritten (item :: items))
    (hfuel : 2 * (itemsBytes (item :: items)).length + 1 < fuel) :
    items? fuel (itemsBytes (item :: items) ++ 0x5D :: rest) = some (item :: items, rest) := by
  obtain ⟨fuel, rfl⟩ : ∃ n, fuel = n + 1 := ⟨fuel - 1, by omega⟩
  match items with
  | [] =>
    have hitem := value?_append item fuel hitems.1
      (by simp only [itemsBytes] at hfuel; omega) (endsNumber_bracket rest)
    simp only [itemsBytes, items?, hitem]
    rfl
  | next :: items =>
    simp only [itemsBytes, List.length_append, List.length_cons] at hfuel
    have hitem := value?_append item fuel hitems.1 (by omega)
      (endsNumber_comma (itemsBytes (next :: items) ++ 0x5D :: rest))
    have hitems := items?_append next items fuel rest hitems.2 (by omega)
    simp only [itemsBytes, items?, List.append_assoc, List.cons_append]
    rw [show ascii ',' = 0x2C from rfl, hitem]
    change (items? fuel (itemsBytes (next :: items) ++ 0x5D :: rest)).bind _ = _
    rw [hitems]
    rfl
termination_by fuel

theorem members?_append (name : Bytes) (value : Json) (members : List (Bytes × Json)) (fuel : Nat)
    (rest : Bytes) (hmembers : AreWrittenMembers ((name, value) :: members))
    (hfuel : 2 * (membersBytes ((name, value) :: members)).length + 1 < fuel) :
    members? fuel (membersBytes ((name, value) :: members) ++ 0x7D :: rest) =
      some ((name, value) :: members, rest) := by
  obtain ⟨fuel, rfl⟩ : ∃ n, fuel = n + 1 := ⟨fuel - 1, by omega⟩
  obtain ⟨⟨raw, rfl⟩, hvalue, hothers⟩ := hmembers
  match members with
  | [] =>
    simp only [membersBytes, List.length_append, List.length_cons] at hfuel
    have hread := value?_append value fuel hvalue (by omega) (endsNumber_brace rest)
    have hname := string?_escape_append raw (0x3A :: (value.bytes ++ 0x7D :: rest))
    simp only [membersBytes, quoted, List.append_assoc, List.cons_append, List.nil_append]
    change (string? (escape raw ++ 0x22 :: (0x3A :: (value.bytes ++ 0x7D :: rest)))).bind _ = _
    rw [hname]
    change (value? fuel (value.bytes ++ 0x7D :: rest)).bind _ = _
    rw [hread]
    rfl
  | (other, next) :: members =>
    simp only [membersBytes, List.length_append, List.length_cons] at hfuel
    have hread := value?_append value fuel hvalue (by omega)
      (endsNumber_comma (membersBytes ((other, next) :: members) ++ 0x7D :: rest))
    have hmembers := members?_append other next members fuel rest hothers (by omega)
    have hname := string?_escape_append raw
      (0x3A :: (value.bytes ++ 0x2C :: (membersBytes ((other, next) :: members) ++ 0x7D :: rest)))
    simp only [membersBytes, quoted, List.append_assoc, List.cons_append, List.nil_append]
    change (string? (escape raw ++ 0x22 :: (0x3A :: (value.bytes ++
      0x2C :: (membersBytes ((other, next) :: members) ++ 0x7D :: rest))))).bind _ = _
    rw [hname]
    change (value? fuel (value.bytes ++
      0x2C :: (membersBytes ((other, next) :: members) ++ 0x7D :: rest))).bind _ = _
    rw [hread]
    change (members? fuel (membersBytes ((other, next) :: members) ++ 0x7D :: rest)).bind _ = _
    rw [hmembers]
    rfl
termination_by fuel

end

theorem read?_bytes {j : Json} (hj : j.IsWritten) : read? j.bytes = some j := by
  have hvalue := value?_append j (2 * j.bytes.length + 2) hj (by omega) endsNumber_nil
  rw [List.append_nil] at hvalue
  rw [read?, hvalue]
  rfl

end WorldClock.Json
