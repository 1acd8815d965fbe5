import WorldClock.Json.Number
import WorldClock.Json.Reader
import WorldClock.Proofs.Digits

/-!
# Numbers read back

A number is read digit by digit up to the first byte that cannot belong to it, so a number that was
written reads back only if such a byte, or nothing, follows (`EndsNumber`). What is written has to
have a whole part without a zero in front and digits in its exponent (`Numeral.IsProper`); whole
numbers have that form, and so have counts.
-/

namespace WorldClock

/-- A numeral that a reader takes for a number: the whole part is one zero or starts with another
digit, and an exponent has digits. -/
structure Numeral.IsProper (n : Numeral) : Prop where
  whole : n.whole = [0] ∨ ∃ d ds, n.whole = d :: ds ∧ d ≠ 0
  exponent : ∀ e, n.exponent = some e → e.digits ≠ []

theorem Numeral.isProper_ofNat (n : Nat) : (Numeral.ofNat n).IsProper :=
  ⟨Decimal.digits_eq_zero_or n, by intro e he; cases he⟩

namespace Json

def NoDigitFirst (rest : Bytes) : Prop := ∀ b ∈ rest.head?, Digit.ofByte? b = none

/-- Nothing that could go on with a number comes first. -/
def EndsNumber (rest : Bytes) : Prop :=
  ∀ b ∈ rest.head?, Digit.ofByte? b = none ∧ b ≠ 0x2E ∧ b ≠ 0x65 ∧ b ≠ 0x45

theorem EndsNumber.noDigitFirst {rest : Bytes} (h : EndsNumber rest) : NoDigitFirst rest :=
  fun b hb => (h b hb).1

theorem endsNumber_nil : EndsNumber [] := by
  intro b hb
  cases hb

theorem toByte_ne_zero : ∀ d : Digit, d ≠ 0 → d.toByte ≠ 0x30 := by decide

theorem toByte_ne_sign : ∀ d : Digit, d.toByte ≠ 0x2B ∧ d.toByte ≠ 0x2D := by decide

theorem digits_append (ds : List Digit) {rest : Bytes} (h : NoDigitFirst rest) :
    digits (ds.map Digit.toByte ++ rest) = (ds, rest) := by
  induction ds with
  | nil =>
    cases rest with
    | nil => rfl
    | cons b rest => simp [digits, h b rfl]
  | cons d ds ih => simp [digits, Digit.ofByte?_toByte, ih]

theorem someDigits?_append {ds : List Digit} (hne : ds ≠ []) {rest : Bytes}
    (h : NoDigitFirst rest) : someDigits? (ds.map Digit.toByte ++ rest) = some (ds, rest) := by
  rw [someDigits?, digits_append ds h]
  cases ds with
  | nil => exact absurd rfl hne
  | cons d ds => rfl

theorem whole?_append {ds : List Digit} (hds : ds = [0] ∨ ∃ d tail, ds = d :: tail ∧ d ≠ 0)
    {rest : Bytes} (h : NoDigitFirst rest) :
    whole? (ds.map Digit.toByte ++ rest) = some (ds, rest) := by
  obtain rfl | ⟨d, tail, rfl, hd⟩ := hds
  · rfl
  · have hne := toByte_ne_zero d hd
    rw [whole?.eq_def]
    split
    · next heq => exact absurd (List.cons.inj heq).1 hne
    · exact someDigits?_append (List.cons_ne_nil d tail) h

def fractionBytes (ds : List Digit) : Bytes :=
  if ds.isEmpty then [] else 0x2E :: ds.map Digit.toByte

def exponentSignBytes : ExponentSign → Bytes
  | .none => []
  | .plus => [0x2B]
  | .minus => [0x2D]

def exponentBytes : Option Exponent → Bytes
  | none => []
  | some e => 0x65 :: (exponentSignBytes e.sign ++ e.digits.map Digit.toByte)

theorem numeralBytes_eq (n : Numeral) :
    numeralBytes n = (if n.negative then [0x2D] else []) ++
      (n.whole.map Digit.toByte ++ (fractionBytes n.fraction ++ exponentBytes n.exponent)) := by
  obtain ⟨negative, whole, fraction, _ | ⟨_ | _ | _, ds⟩⟩ := n <;>
    simp [numeralBytes, fractionBytes, exponentBytes, exponentSignBytes]

theorem exponent_noDigitFirst (e : Option Exponent) {rest : Bytes} (h : NoDigitFirst rest) :
    NoDigitFirst (exponentBytes e ++ rest) := by
  cases e with
  | none => exact h
  | some e =>
    intro b heq
    cases heq
    decide

theorem fraction_noDigitFirst (ds : List Digit) (e : Option Exponent) {rest : Bytes}
    (h : NoDigitFirst rest) : NoDigitFirst (fractionBytes ds ++ (exponentBytes e ++ rest)) := by
  cases ds with
  | nil => exact exponent_noDigitFirst e h
  | cons d ds =>
    intro b heq
    cases heq
    decide

theorem fraction?_append (ds : List Digit) (e : Option Exponent) {rest : Bytes}
    (h : EndsNumber rest) :
    fraction? (fractionBytes ds ++ (exponentBytes e ++ rest)) =
      some (ds, exponentBytes e ++ rest) := by
  cases ds with
  | cons d ds =>
    exact someDigits?_append (List.cons_ne_nil d ds) (exponent_noDigitFirst e h.noDigitFirst)
  | nil =>
    change fraction? (exponentBytes e ++ rest) = _
    rw [fraction?.eq_def]
    split
    · next after heq =>
      cases e with
      | none => exact absurd rfl (h 0x2E (by rw [show rest = 0x2E :: after from heq]; rfl)).2.1
      | some e => cases heq
    · rfl

theorem exponentSign_append (sign : ExponentSign) {ds : List Digit} (hne : ds ≠ [])
    (rest : Bytes) :
    exponentSign (exponentSignBytes sign ++ ds.map Digit.toByte ++ rest) =
      (sign, ds.map Digit.toByte ++ rest) := by
  cases sign with
  | plus => rfl
  | minus => rfl
  | none =>
    cases ds with
    | nil => exact absurd rfl hne
    | cons d ds =>
      obtain ⟨hplus, hminus⟩ := toByte_ne_sign d
      simp [exponentSignBytes, exponentSign, hplus, hminus]

theorem exponent?_append {e : Option Exponent} (he : ∀ x, e = some x → x.digits ≠ [])
    {rest : Bytes} (h : EndsNumber rest) :
    exponent? (exponentBytes e ++ rest) = some (e, rest) := by
  cases e with
  | some x =>
    have hne := he x rfl
    simp only [exponentBytes, List.cons_append, exponent?, exponentSign_append x.sign hne rest,
      someDigits?_append hne h.noDigitFirst]
    rfl
  | none =>
    change exponent? rest = _
    rw [exponent?.eq_def]
    split
    · exact absurd rfl (h 0x65 rfl).2.2.1
    · exact absurd rfl (h 0x45 rfl).2.2.2
    · rfl

theorem numeral?_append {n : Numeral} (hn : n.IsProper) {rest : Bytes} (h : EndsNumber rest) :
    numeral? (numeralBytes n ++ rest) = some (n, rest) := by
  have hwhole := whole?_append hn.whole
    (fraction_noDigitFirst n.fraction n.exponent h.noDigitFirst)
  have hfraction := fraction?_append n.fraction n.exponent h
  have hexponent := exponent?_append hn.exponent h
  rw [numeralBytes_eq]
  obtain ⟨negative, whole, fraction, exponent⟩ := n
  cases negative with
  | true =>
    simp only [if_true, List.append_assoc, List.cons_append, List.nil_append, numeral?] at *
    rw [hwhole]
    simp only [Option.bind_eq_bind, Option.bind_some, hfraction, hexponent, Option.pure_def]
  | false =>
    -- A whole part starts with a digit, so no sign is seen.
    have hsign : ∀ after, whole.map Digit.toByte ++
        (fractionBytes fraction ++ (exponentBytes exponent ++ rest)) ≠ 0x2D :: after := by
      intro after heq
      obtain hzero | ⟨d, tail, hcons, -⟩ := hn.whole
      · rw [show whole = [0] from hzero] at heq
        cases heq
      · rw [show whole = d :: tail from hcons] at heq
        exact (toByte_ne_sign d).2 (List.cons.inj heq).1
    simp only [Bool.false_eq_true, if_false, List.nil_append, List.append_assoc, numeral?] at *
    rw [hwhole]
    simp only [Option.bind_eq_bind, Option.bind_some, hfraction, hexponent, Option.pure_def]

/-! ### Counts -/

theorem toNatUpTo?_ofNat {n high : Nat} (h : n ≤ high) : toNatUpTo? high (ofNat n) = some n := by
  have hint : numeralInt? (Numeral.ofNat n) = some (n : Int) := by
    simp [numeralInt?, Numeral.isWhole, Numeral.ofNat, Decimal.value_digits]
  simp only [toNatUpTo?, toIntBetween?, ofNat, hint]
  simp [Option.filter, h]

@[simp]
theorem toCount?_ofCount (n : Count) : toCount? (ofCount n) = some n := by
  rw [toCount?, ofCount, toNatUpTo?_ofNat n.toNat_le_greatest, Option.map_some, Count.ofNat_toNat]

end Json

end WorldClock
