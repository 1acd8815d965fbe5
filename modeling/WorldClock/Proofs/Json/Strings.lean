import WorldClock.Json.Escape
import WorldClock.Json.Reader

/-!
# Strings read back

A text is escaped byte by byte, and each byte takes one of three forms: it stands as it is, after a
backslash, or as a unit of four hexadecimal digits. Both the reader that looks for the closing quote
and the one that undoes the escapes go through the string form by form, so what has to be shown of
them is shown of one form with anything after it.
-/

namespace WorldClock.Json

/-- The forms in which one byte of a text stands inside a string. -/
inductive EscapeForm (b : UInt8) : Bytes → Prop where
  | plain (hslash : b ≠ 0x5C) (hquote : b ≠ 0x22) (hlow : ¬ b < 0x20) : EscapeForm b [b]
  | letter (l : UInt8) (hne : l ≠ 0x75) (hread : isEscapeLetter l)
      (hmean : unescapeLetter? l = some b) : EscapeForm b [0x5C, l]
  | unit (u v : UInt8) (hu : isHexByte u) (hv : isHexByte v)
      (hmean : hexUnit? 0x30 0x30 u v = some b.toNat) (hlow : b.toNat < 32) :
      EscapeForm b [0x5C, 0x75, 0x30, 0x30, u, v]

theorem codePointBytes_of_lt : ∀ n < 32, codePointBytes n = [UInt8.ofNat n] := by
  decide +kernel

theorem hexUnit?_of_lt : ∀ n < 32,
    hexUnit? 0x30 0x30 (UInt8.ofNat (Hex.toChar (Fin.ofNat 16 (n / 16))).toNat)
      (UInt8.ofNat (Hex.toChar (Fin.ofNat 16 n)).toNat) = some n := by
  decide +kernel

theorem isHexByte_toChar : ∀ d : Fin 16, isHexByte (UInt8.ofNat (Hex.toChar d).toNat) := by
  decide

theorem shortEscape?_eq_some {b l : UInt8} (h : shortEscape? b = some l) :
    l ≠ 0x75 ∧ isEscapeLetter l ∧ unescapeLetter? l = some b := by
  unfold shortEscape? at h
  repeat' split at h
  all_goals
    first
    | (obtain rfl := Option.some.inj h; subst b; decide)
    | cases h

theorem escapeByte_form (b : UInt8) : EscapeForm b (escapeByte b) := by
  unfold escapeByte
  split
  · next hquote =>
    refine .letter b ?_ ?_ ?_ <;> rcases hquote with rfl | rfl <;> decide
  split
  · next hquote hlow =>
    split
    · next l hl =>
      obtain ⟨hne, hread, hmean⟩ := shortEscape?_eq_some hl
      exact .letter l hne hread hmean
    · have hlt : b.toNat < 32 := by simpa [UInt8.lt_iff_toNat_lt] using hlow
      exact .unit _ _ (isHexByte_toChar _) (isHexByte_toChar _) (hexUnit?_of_lt b.toNat hlt) hlt
  · next hquote hlow =>
    exact .plain (fun h => hquote (.inr h)) (fun h => hquote (.inl h)) hlow

/-- Undoing the escape of one byte gives the byte, whatever follows. -/
theorem unescape?_form_append {b : UInt8} {form : Bytes} (h : EscapeForm b form) (rest : Bytes) :
    unescape? (form ++ rest) = (unescape? rest).map (b :: ·) := by
  cases h with
  | plain hslash hquote hlow =>
    rw [List.singleton_append, unescape?] <;> try simp_all
    cases unescape? rest <;> rfl
  | letter l hne hread hmean =>
    rw [List.cons_append, List.singleton_append, unescape?, hmean]
    · cases unescape? rest <;> rfl
    · rintro a b c d rest h
      exact absurd h hne
  | unit u v hu hv hmean hlow =>
    have hlowHalf : isLowHalf b.toNat = false := by simp [isLowHalf]; omega
    have hhighHalf : isHighHalf b.toNat = false := by simp [isHighHalf]; omega
    simp only [List.cons_append, List.nil_append, unescape?, hmean, Option.bind_eq_bind,
      Option.bind_some, hlowHalf, hhighHalf, codePointBytes_of_lt _ hlow, UInt8.ofNat_toNat]
    cases unescape? rest <;> rfl

theorem unescape?_escape (bs : Bytes) : unescape? (escape bs) = some bs := by
  induction bs with
  | nil => rfl
  | cons b bs ih =>
    rw [escape, List.flatMap_cons, unescape?_form_append (escapeByte_form b), ← escape, ih]
    rfl

/-- No form of a byte holds the closing quote. -/
theorem string?_form_append {b : UInt8} {form : Bytes} (h : EscapeForm b form) (rest : Bytes) :
    string? (form ++ rest) = (string? rest).map fun (raw, after) => (form ++ raw, after) := by
  cases h with
  | plain hslash hquote hlow =>
    rw [List.singleton_append, string?, if_neg (by simp [hslash, hlow])] <;> simp_all
  | letter l hne hread hmean =>
    rw [List.cons_append, List.singleton_append, string?, if_pos hread]
    · rfl
    · rintro a b c d rest h
      exact absurd h hne
  | unit u v hu hv hmean hlow =>
    have hzero : isHexByte 0x30 := by decide
    simp only [List.cons_append, List.nil_append, string?, hu, hv, hzero, Bool.and_self, if_true]

/-- A string ends at the first quote after an escaped text. -/
theorem string?_escape_append (bs rest : Bytes) :
    string? (escape bs ++ 0x22 :: rest) = some (escape bs, rest) := by
  induction bs with
  | nil => rfl
  | cons b bs ih =>
    rw [escape, List.flatMap_cons, List.append_assoc, string?_form_append (escapeByte_form b),
      ← escape, ih]
    rfl

@[simp]
theorem stringText?_escape (s : String) : stringText? (escape (Text.bytes s)) = some s := by
  rw [stringText?, unescape?_escape, Option.bind_some, Text.ofBytes?_bytes]

end WorldClock.Json
