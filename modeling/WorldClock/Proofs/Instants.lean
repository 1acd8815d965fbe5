import WorldClock.Instant.Text
import WorldClock.Proofs.Digits

/-!
# Times read back

`Utc.ofText?_text`: the text of a time leads back to it, to the nanosecond and in leap seconds too,
and so does that of an instant (`Instant.ofText?_text`). The reader takes the text apart mark by
mark; every number in it but the year has a fixed width, and the year ends at a mark. The date it
finds is one of the calendar because the day of the year that a date is made from lies within its
year (`Civil.isValid_ofDays`).
-/

namespace WorldClock

namespace Civil

theorem daysBeforeYear_succ (year : Int) :
    daysBeforeYear (year + 1) = daysBeforeYear year + (if isLeap year then 366 else 365) := by
  by_cases hleap : isLeap year
  · rw [if_pos hleap]
    simp only [isLeap, decide_eq_true_eq] at hleap
    simp only [daysBeforeYear]
    omega
  · rw [if_neg hleap]
    simp only [isLeap, decide_eq_true_eq] at hleap
    simp only [daysBeforeYear]
    omega

/-- Whether a day of a year falls into a month. -/
def inMonth (leap : Bool) (month dayOfYear : Nat) : Bool :=
  decide (dayOfYear - daysBeforeMonth leap month < daysInMonth leap month)

theorem inMonth_monthOfDay_common : ∀ n < 365, inMonth false (monthOfDay false n) n := by
  decide +kernel

theorem inMonth_monthOfDay_leap : ∀ n < 366, inMonth true (monthOfDay true n) n := by
  decide +kernel

theorem isValid_ofDays (days : Int) : (ofDays days).isValid := by
  have hbegun := daysBeforeYear_yearOfDay_le days
  have hended := lt_daysBeforeYear_succ days
  rw [daysBeforeYear_succ] at hended
  have hmonth : inMonth (isLeap (yearOfDay days))
      (monthOfDay (isLeap (yearOfDay days)) (days - daysBeforeYear (yearOfDay days)).toNat)
      (days - daysBeforeYear (yearOfDay days)).toNat := by
    cases hleap : isLeap (yearOfDay days)
    · rw [hleap, if_neg Bool.false_ne_true] at hended
      exact inMonth_monthOfDay_common _ (by omega)
    · rw [hleap, if_pos rfl] at hended
      exact inMonth_monthOfDay_leap _ (by omega)
  have hday := of_decide_eq_true hmonth
  refine decide_eq_true ⟨Nat.le_add_left 1 _, ?_⟩
  simp only [ofDays]
  omega

theorem month_ofDays_lt (days : Int) : (ofDays days).month < 100 := by
  obtain ⟨hday, hlast⟩ := of_decide_eq_true (isValid_ofDays days)
  refine Nat.lt_of_not_le fun hlarge => ?_
  have hnone : (monthLengths (isLeap (ofDays days).year))[(ofDays days).month - 1]? = none := by
    rw [List.getElem?_eq_none_iff]
    simp only [monthLengths, List.length_cons, List.length_nil]
    omega
  rw [daysInMonth, if_neg (by omega), hnone, Option.getD_none] at hlast
  omega

theorem day_ofDays_lt (days : Int) : (ofDays days).day < 100 := by
  obtain ⟨hday, hlast⟩ := of_decide_eq_true (isValid_ofDays days)
  have hlength : ∀ leap : Bool, ∀ m < 100, daysInMonth leap m < 100 := by decide
  have := hlength (isLeap (ofDays days).year) _ (month_ofDays_lt days)
  omega

end Civil

namespace Utc

theorem takeDigits_append {ds : List Digit} {width : Nat} (hlength : ds.length = width)
    (rest : List Char) : takeDigits width (ds.map Digit.toChar ++ rest) = (ds, rest) := by
  subst hlength
  induction ds with
  | nil => rfl
  | cons d ds ih => simp [takeDigits, Digit.ofChar?_toChar, ih]

theorem takeDigits_append_mark {ds : List Digit} {width : Nat} (hlength : ds.length < width)
    {mark : Char} (hmark : Digit.ofChar? mark = none) (rest : List Char) :
    takeDigits width (ds.map Digit.toChar ++ mark :: rest) = (ds, mark :: rest) := by
  induction ds generalizing width with
  | nil =>
    obtain ⟨k, rfl⟩ : ∃ k, width = k + 1 := ⟨width - 1, by simp at hlength; omega⟩
    simp [takeDigits, hmark]
  | cons d ds ih =>
    obtain ⟨k, rfl⟩ : ∃ k, width = k + 1 := ⟨width - 1, by simp at hlength; omega⟩
    have hlength' : ds.length < k := by simpa using hlength
    simp [takeDigits, Digit.ofChar?_toChar, ih hlength']

theorem takeAllDigits_append {mark : Char} (hmark : Digit.ofChar? mark = none) (ds : List Digit)
    (rest : List Char) :
    takeAllDigits (ds.map Digit.toChar ++ mark :: rest) = (ds, mark :: rest) := by
  refine takeDigits_append_mark ?_ hmark rest
  rw [List.length_append, List.length_map, List.length_cons]
  omega

theorem isBlank_toChar : ∀ d : Digit, Text.isBlank d.toChar = false := by decide

theorem toChar_ne_sign : ∀ d : Digit, d.toChar ≠ '-' ∧ d.toChar ≠ '+' := by decide

theorem dropBlanks_digits {ds : List Digit} (hne : ds ≠ []) (rest : List Char) :
    Text.dropBlanks (ds.map Digit.toChar ++ rest) = ds.map Digit.toChar ++ rest := by
  cases ds with
  | nil => exact absurd rfl hne
  | cons d ds => simp [Text.dropBlanks, isBlank_toChar]

theorem number?_padded (width : Nat) {n : Nat} (h : n < 10 ^ (width + 1)) (rest : List Char) :
    number? (width + 1) ((Decimal.padded (width + 1) n).toList ++ rest) = some (n, rest) := by
  have hlength := Decimal.length_paddedDigits h
  have hvalue := Decimal.value_paddedDigits (width + 1) n
  have hne := Decimal.paddedDigits_ne_nil (width + 1) n
  rw [Decimal.toList_padded, number?, dropBlanks_digits hne, takeDigits_append hlength]
  cases hds : Decimal.paddedDigits (width + 1) n with
  | nil => exact absurd hds hne
  | cons d ds =>
    rw [hds] at hvalue
    exact congrArg (fun k => some (k, rest)) hvalue

theorem mark?_cons (mark : Char) (hmark : Text.isBlank mark = false) (rest : List Char) :
    mark? mark (mark :: rest) = some rest := by
  simp [mark?, Text.dropBlanks, hmark]

theorem year?_digits {ds : List Digit} (hne : ds ≠ []) (rest : List Char) :
    year? (ds.map Digit.toChar ++ rest) =
      (number? 4 (ds.map Digit.toChar ++ rest)).map fun (n, rest) => ((n : Int), rest) := by
  have hdrop := dropBlanks_digits hne rest
  cases ds with
  | nil => exact absurd rfl hne
  | cons d ds =>
    obtain ⟨hminus, hplus⟩ := toChar_ne_sign d
    rw [year?, hdrop]
    simp only [List.map_cons, List.cons_append]
    split
    · next heq => exact absurd (List.cons.inj heq).1 hminus
    · next heq => exact absurd (List.cons.inj heq).1 hplus
    · rfl

theorem takeAllDigits_padded (n : Nat) (rest : List Char) :
    takeAllDigits ((Decimal.padded 4 n).toList ++ '-' :: rest) =
      (Decimal.paddedDigits 4 n, '-' :: rest) := by
  rw [Decimal.toList_padded]
  exact takeAllDigits_append (by decide) _ rest

theorem year?_minus (n : Nat) (rest : List Char) :
    year? ('-' :: ((Decimal.padded 4 n).toList ++ '-' :: rest)) =
      some (-(n : Int), '-' :: rest) := by
  obtain ⟨d, ds, hds⟩ := List.exists_cons_of_ne_nil (Decimal.paddedDigits_ne_nil 4 n)
  have hvalue := Decimal.value_paddedDigits 4 n
  have hdigits := takeAllDigits_padded n rest
  rw [hds] at hvalue hdigits
  rw [year?, show Text.dropBlanks ('-' :: ((Decimal.padded 4 n).toList ++ '-' :: rest)) =
    '-' :: ((Decimal.padded 4 n).toList ++ '-' :: rest) from rfl]
  simp only [hdigits, hvalue, Option.map_some]

theorem year?_plus (n : Nat) (rest : List Char) :
    year? ('+' :: ((Decimal.padded 4 n).toList ++ '-' :: rest)) =
      some ((n : Int), '-' :: rest) := by
  obtain ⟨d, ds, hds⟩ := List.exists_cons_of_ne_nil (Decimal.paddedDigits_ne_nil 4 n)
  have hvalue := Decimal.value_paddedDigits 4 n
  have hdigits := takeAllDigits_padded n rest
  rw [hds] at hvalue hdigits
  rw [year?, show Text.dropBlanks ('+' :: ((Decimal.padded 4 n).toList ++ '-' :: rest)) =
    '+' :: ((Decimal.padded 4 n).toList ++ '-' :: rest) from rfl]
  simp only [hdigits, hvalue, Option.map_some]

theorem year?_yearText (year : Int) (rest : List Char) :
    year? ((yearText year).toList ++ '-' :: rest) = some (year, '-' :: rest) := by
  rw [yearText]
  split
  · next hplain =>
    have hnumber := number?_padded 3 (n := year.toNat) (by omega) ('-' :: rest)
    rw [Decimal.toList_padded] at hnumber ⊢
    rw [year?_digits (Decimal.paddedDigits_ne_nil 4 _), hnumber]
    exact congrArg (fun y : Int => some (y, '-' :: rest)) (Int.toNat_of_nonneg hplain.1)
  split
  · next hneg =>
    rw [String.toList_append, List.append_assoc]
    have hread := year?_minus year.natAbs rest
    rwa [show -(year.natAbs : Int) = year by omega] at hread
  · next hpos =>
    rw [String.toList_append, List.append_assoc]
    have hread := year?_plus year.natAbs rest
    rwa [show (year.natAbs : Int) = year by omega] at hread

theorem fraction?_fractionText {nanos : Nat} (h : nanos < nanosPerSecond) (rest : List Char) :
    fraction? ((fractionText nanos).toList ++ 'Z' :: rest) = some (nanos, 'Z' :: rest) := by
  have hread (width n : Nat) (hn : n < 10 ^ (width + 1)) (hwidth : width < 9) :
      fraction? ('.' :: ((Decimal.padded (width + 1) n).toList ++ 'Z' :: rest)) =
        some (n * 10 ^ (8 - width), 'Z' :: rest) := by
    have hlength := Decimal.length_paddedDigits hn
    have hvalue := Decimal.value_paddedDigits (width + 1) n
    obtain ⟨d, ds, hds⟩ := List.exists_cons_of_ne_nil (Decimal.paddedDigits_ne_nil (width + 1) n)
    have htake : (Decimal.paddedDigits (width + 1) n).take 9 = Decimal.paddedDigits (width + 1) n :=
      List.take_of_length_le (by omega)
    rw [hds] at hlength hvalue htake
    rw [Decimal.toList_padded, fraction?, takeAllDigits_append (by decide), hds]
    simp only [htake, hvalue, hlength, Nat.reduceSubDiff]
  simp only [nanosPerSecond] at h
  rw [fractionText]
  split
  · next hzero => rw [hzero]; rfl
  split
  · next hmilli =>
    simp only [nanosPerMilli] at hmilli ⊢
    rw [String.toList_append, List.append_assoc]
    refine (hread 2 _ (by omega) (by omega)).trans ?_
    rw [show nanos / 1000000 * 10 ^ (8 - 2) = nanos by omega]
  split
  · next hmicro =>
    simp only [nanosPerMicro] at hmicro ⊢
    rw [String.toList_append, List.append_assoc]
    refine (hread 5 _ (by omega) (by omega)).trans ?_
    rw [show nanos / 1000 * 10 ^ (8 - 5) = nanos by omega]
  · rw [String.toList_append, List.append_assoc]
    refine (hread 8 _ (by omega) (by omega)).trans ?_
    rw [Nat.sub_self, Nat.pow_zero, Nat.mul_one]

/-- A time of day, in a leap second or not, is read as the seconds and nanoseconds that it is made
of. -/
theorem ofClock?_eq {date : Civil} (hvalid : date.isValid) {ofDay nanos : Nat}
    (h : ofDay < secondsPerDay)
    (hnanos : nanos < nanosPerSecond ∨ ofDay % 60 = 59 ∧ nanos < 2 * nanosPerSecond) :
    ofClock? date (ofDay / 3600) (ofDay / 60 % 60) (ofDay % 60 + nanos / nanosPerSecond)
      (nanos % nanosPerSecond) = some (date.toDays * (secondsPerDay : Int) + ofDay, nanos) := by
  simp only [secondsPerDay, nanosPerSecond] at h hnanos
  have hbounds : ofDay / 3600 < 24 ∧ ofDay / 60 % 60 < 60 ∧
      ofDay % 60 + nanos / nanosPerSecond ≤ 60 := by
    simp only [nanosPerSecond]
    omega
  rw [ofClock?, if_pos ⟨hvalid, hbounds⟩]
  simp only [nanosPerSecond, secondsPerDay, Option.some.injEq, Prod.mk.injEq]
  omega

theorem coversDate_ofDays (u : Utc) :
    coversDate (Civil.ofDays (u.seconds / (secondsPerDay : Int))) := by
  have hmin := u.min_le
  have hmax := u.le_max
  refine decide_eq_true ?_
  simp only [Civil.toDays_ofDays, secondsPerDay, minSeconds, maxSeconds] at *
  omega

/-- The characters of the time so many seconds into a date, and so many nanoseconds past them. -/
def charsOf (date : Civil) (ofDay nanos : Nat) : List Char :=
  (yearText date.year).toList ++ '-' :: ((Decimal.padded 2 date.month).toList ++
    '-' :: ((Decimal.padded 2 date.day).toList ++
      'T' :: ((Decimal.padded 2 (ofDay / 3600)).toList ++
        ':' :: ((Decimal.padded 2 (ofDay / 60 % 60)).toList ++
          ':' :: ((Decimal.padded 2 (ofDay % 60 + nanos / nanosPerSecond)).toList ++
            ((fractionText (nanos % nanosPerSecond)).toList ++ ['Z']))))))

theorem toList_text (u : Utc) :
    u.text.toList = charsOf (Civil.ofDays (u.seconds / (secondsPerDay : Int)))
      (u.seconds % (secondsPerDay : Int)).toNat u.nanos := by
  simp [text, charsOf]

theorem ofChars?_charsOf {date : Civil} (hvalid : date.isValid) (hcovers : coversDate date)
    (hmonth : date.month < 100) (hday : date.day < 100) {ofDay nanos : Nat}
    (h : ofDay < secondsPerDay)
    (hnanos : nanos < nanosPerSecond ∨ ofDay % 60 = 59 ∧ nanos < 2 * nanosPerSecond) :
    ofChars? (charsOf date ofDay nanos) =
      ofParts? (date.toDays * (secondsPerDay : Int) + ofDay) nanos := by
  have htwo {n : Nat} (hn : n < 100) (rest : List Char) :
      number? 2 ((Decimal.padded 2 n).toList ++ rest) = some (n, rest) :=
    number?_padded 1 hn rest
  have hfraction (rest : List Char) :=
    fraction?_fractionText (Nat.mod_lt nanos (by decide : 0 < nanosPerSecond)) rest
  have hclock := ofClock?_eq hvalid h hnanos
  have hhyphen := mark?_cons '-' (by decide)
  have hcolon := mark?_cons ':' (by decide)
  have hoffset : offsetText? (Text.dropBlanks ['Z']) = some (0, []) := by decide
  simp only [secondsPerDay, nanosPerSecond] at h hnanos
  have hhour : ofDay / 3600 < 100 := by omega
  have hminute : ofDay / 60 % 60 < 100 := by omega
  have hsecond : ofDay % 60 + nanos / nanosPerSecond < 100 := by
    simp only [nanosPerSecond]
    omega
  -- One part after the other is read off the front.
  rw [ofChars?, charsOf, year?_yearText]
  dsimp only [Option.bind_eq_bind, Option.bind_some]
  rw [hhyphen, Option.bind_some, htwo hmonth]
  dsimp only [Option.bind_some]
  rw [hhyphen, Option.bind_some, htwo hday]
  dsimp only [Option.bind_some]
  change (number? 2 (_ ++ _)).bind _ = _
  rw [htwo hhour]
  dsimp only [Option.bind_some]
  rw [hcolon, Option.bind_some, htwo hminute]
  dsimp only [Option.bind_some]
  rw [hcolon, Option.bind_some, htwo hsecond]
  dsimp only [Option.bind_some]
  rw [hfraction]
  dsimp only [Option.bind_some]
  rw [hoffset]
  dsimp only [Option.bind_some]
  rw [if_pos ⟨rfl, by decide, hcovers⟩, hclock]
  dsimp only [Option.bind_some]
  rw [Int.sub_zero]

/-- The text of a time leads back to it. -/
@[simp]
theorem ofText?_text (u : Utc) : ofText? u.text = some u := by
  have hmin := u.min_le
  have hmax := u.le_max
  have hnanos := u.nanos_lt
  have hofDay : (u.seconds % (secondsPerDay : Int)).toNat < secondsPerDay := by
    simp only [secondsPerDay]
    omega
  have hminute : u.nanos < nanosPerSecond ∨
      (u.seconds % (secondsPerDay : Int)).toNat % 60 = 59 ∧ u.nanos < 2 * nanosPerSecond := by
    simp only [secondsPerDay]
    omega
  have hseconds : u.seconds / (secondsPerDay : Int) * (secondsPerDay : Int) +
      (u.seconds % (secondsPerDay : Int)).toNat = u.seconds := by
    simp only [secondsPerDay]
    omega
  rw [ofText?, toList_text, ofChars?_charsOf (Civil.isValid_ofDays _) (coversDate_ofDays u)
    (Civil.month_ofDays_lt _) (Civil.day_ofDays_lt _) hofDay hminute, Civil.toDays_ofDays, hseconds,
    ofParts?, dif_pos ⟨hmin, hmax, hnanos⟩]

end Utc

namespace Instant

/-- What the clock of a process shows is the instant that it shows. -/
theorem toInstant?_toUtc (t : Instant) : t.toUtc.toInstant? = some t := by
  rw [Utc.toInstant?, Utc.unixNanos_toUtc, ofNanos?, dif_pos ⟨t.min_le, t.le_max⟩]

/-- The text of an instant leads back to it. -/
@[simp]
theorem ofText?_text (t : Instant) : ofText? t.text = some t := by
  rw [ofText?, text, Utc.ofText?_text, Option.bind_some, toInstant?_toUtc]

end Instant

end WorldClock
