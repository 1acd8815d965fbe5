import Mathlib.Data.List.TakeWhile
import WorldClock.Decimal.Digits

/-!
# Rows of digits

The digits of a number start with a zero only if they are one zero. A row of fixed width keeps the
value when it is filled up with zeros in front, and zeros at the end are powers of ten.
-/

namespace WorldClock.Decimal

open Digits (value value_append_singleton)

theorem digits_eq_zero_or (n : Nat) : digits n = [0] ∨ ∃ d ds, digits n = d :: ds ∧ d ≠ 0 := by
  induction n using Nat.strongRecOn with
  | ind n ih =>
    rw [digits_eq]
    split
    · next h =>
      by_cases hn : n = 0
      · exact .inl (by rw [hn]; rfl)
      · refine .inr ⟨_, _, rfl, ?_⟩
        simp only [ne_eq, Fin.ext_iff, Fin.ofNat]
        omega
    · next h =>
      obtain hzero | ⟨d, ds, hds, hd⟩ := ih (n / 10) (by omega)
      · have hvalue := value_digits (n / 10)
        rw [hzero] at hvalue
        simp [value] at hvalue
        omega
      · exact .inr ⟨d, ds ++ [Fin.ofNat 10 n], by rw [hds]; rfl, hd⟩

theorem digits_ne_nil (n : Nat) : digits n ≠ [] := by
  obtain h | ⟨d, ds, h, -⟩ := digits_eq_zero_or n <;> simp [h]

def paddedDigits (width n : Nat) : List Digit :=
  List.replicate (width - (digits n).length) 0 ++ digits n

theorem toList_padded (width n : Nat) :
    (padded width n).toList = (paddedDigits width n).map Digit.toChar := by
  simp [padded, paddedDigits, Digit.toChar]

theorem value_replicate_append (k : Nat) (ds : List Digit) :
    value (List.replicate k 0 ++ ds) = value ds := by
  induction k with
  | zero => rfl
  | succ k ih =>
    rw [← ih]
    simp [value, List.replicate_succ]

theorem value_paddedDigits (width n : Nat) : value (paddedDigits width n) = n := by
  rw [paddedDigits, value_replicate_append, value_digits]

theorem paddedDigits_ne_nil (width n : Nat) : paddedDigits width n ≠ [] := by
  intro hnil
  exact digits_ne_nil n (List.append_eq_nil_iff.mp hnil).2

theorem length_digits_le {width n : Nat} (h : n < 10 ^ (width + 1)) :
    (digits n).length ≤ width + 1 := by
  induction width generalizing n with
  | zero =>
    rw [digits_eq, if_pos (by simpa using h)]
    exact Nat.le_refl 1
  | succ width ih =>
    rw [digits_eq]
    split
    · exact Nat.le_add_left 1 _
    · have hdiv : n / 10 < 10 ^ (width + 1) := by
        rw [Nat.pow_succ] at h
        omega
      have := ih hdiv
      rw [List.length_append, List.length_singleton]
      omega

theorem length_paddedDigits {width n : Nat} (h : n < 10 ^ (width + 1)) :
    (paddedDigits (width + 1) n).length = width + 1 := by
  have := length_digits_le h
  rw [paddedDigits, List.length_append, List.length_replicate]
  omega

theorem lt_pow_length_digits (n : Nat) : n < 10 ^ (digits n).length := by
  induction n using Nat.strongRecOn with
  | ind n ih =>
    rw [digits_eq]
    split
    · next h => simpa using h
    · next h =>
      have := ih (n / 10) (by omega)
      rw [List.length_append, List.length_singleton, Nat.pow_succ]
      omega

theorem pow_length_digits_le {n : Nat} (hn : 0 < n) : 10 ^ ((digits n).length - 1) ≤ n := by
  induction n using Nat.strongRecOn with
  | ind n ih =>
    rw [digits_eq]
    split
    · exact hn
    · next h =>
      have := ih (n / 10) (by omega) (by omega)
      have hpos := List.length_pos_iff.mpr (digits_ne_nil (n / 10))
      rw [List.length_append, List.length_singleton, Nat.add_sub_cancel,
        ← Nat.sub_add_cancel hpos, Nat.pow_succ]
      simp only [Nat.succ_eq_add_one, Nat.zero_add] at *
      omega

theorem dropTrailingZeros_cons {d : Digit} (hd : d ≠ 0) (ds : List Digit) :
    dropTrailingZeros (d :: ds) = d :: dropTrailingZeros ds := by
  have hlast : [d].dropWhile (· == 0) = [d] := by simp [hd]
  rw [dropTrailingZeros, dropTrailingZeros, List.reverse_cons, List.dropWhile_append, hlast]
  split
  · next hempty => simp [List.isEmpty_iff.mp hempty]
  · simp

theorem dropTrailingZeros_digits {n : Nat} (hn : 0 < n) :
    ∃ d ds, dropTrailingZeros (digits n) = d :: ds ∧ d ≠ 0 := by
  obtain hzero | ⟨d, ds, hds, hd⟩ := digits_eq_zero_or n
  · have hvalue := value_digits n
    rw [hzero] at hvalue
    exact absurd hvalue (Nat.ne_of_lt hn)
  · exact ⟨d, dropTrailingZeros ds, by rw [hds, dropTrailingZeros_cons hd], hd⟩

theorem exists_append_zeros (ds : List Digit) :
    ∃ k, ds = dropTrailingZeros ds ++ List.replicate k 0 := by
  obtain ⟨zeros, hzeros⟩ : ∃ zeros, ds.reverse.takeWhile (· == 0) = zeros := ⟨_, rfl⟩
  have hall : zeros = List.replicate zeros.length 0 :=
    List.eq_replicate_of_mem fun d hd => by
      rw [← hzeros] at hd
      simpa using List.mem_takeWhile_imp hd
  refine ⟨zeros.length, ?_⟩
  have hsplit : zeros ++ ds.reverse.dropWhile (· == 0) = ds.reverse :=
    hzeros ▸ List.takeWhile_append_dropWhile
  rw [dropTrailingZeros, ← List.reverse_inj, List.reverse_append, List.reverse_reverse,
    List.reverse_replicate, ← hall, hsplit]

theorem value_append_zeros (ds : List Digit) (k : Nat) :
    value (ds ++ List.replicate k 0) = value ds * 10 ^ k := by
  induction k with
  | zero => simp
  | succ k ih =>
    rw [List.replicate_succ', ← List.append_assoc, value_append_singleton, ih, Nat.pow_succ,
      Fin.val_zero, Nat.add_zero, Nat.mul_comm, Nat.mul_assoc]

end WorldClock.Decimal
