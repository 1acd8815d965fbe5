import WorldClock.Digits

/-!
# Hexadecimal digits

Numbers in base sixteen, written with lower-case digits and read in either case.
-/

namespace WorldClock.Hex

instance neZero_sixteen : @NeZero Nat Zero.ofOfNat0 16 := ⟨Nat.succ_ne_zero 15⟩

theorem one_lt_sixteen : 1 < 16 := by decide

def toChar (d : Fin 16) : Char :=
  Char.ofNat (if d.val < 10 then 48 + d.val else 87 + d.val)

def ofChar? (c : Char) : Option (Fin 16) :=
  let n := c.toNat
  if h : 48 ≤ n ∧ n < 58 then some ⟨n - 48, by omega⟩
  else if h : 97 ≤ n ∧ n < 103 then some ⟨n - 87, by omega⟩
  else if h : 65 ≤ n ∧ n < 71 then some ⟨n - 55, by omega⟩
  else none

theorem ofChar?_toChar (d : Fin 16) : ofChar? (toChar d) = some d := by
  revert d; decide

def chars (width n : Nat) : List Char :=
  (Digits.fixed one_lt_sixteen width n).map toChar

def ofChars? (cs : List Char) : Option Nat :=
  (cs.mapM ofChar?).map Digits.value

theorem mapM_ofChar?_map_toChar (ds : List (Fin 16)) :
    (ds.map toChar).mapM ofChar? = some ds := by
  induction ds with
  | nil => rfl
  | cons d ds ih => simp [ofChar?_toChar, ih]

theorem ofChars?_chars {width n : Nat} (h : n < 16 ^ width) :
    ofChars? (chars width n) = some n := by
  rw [ofChars?, chars, mapM_ofChar?_map_toChar, Option.map_some, Digits.value_fixed _ h]

end WorldClock.Hex
