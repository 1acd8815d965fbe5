import WorldClock.Identifier

/-!
# Identifiers read back

An identifier is written in five groups of digits, and this written form names it and no other. So
worlds can be told apart by the texts under which the log keeps their events.
-/

namespace WorldClock

namespace Identifier

theorem splitGroups?_append {length : Nat} {lengths : List Nat} (hlengths : lengths ≠ [])
    {group after : List Char} (hgroup : group.length = length) :
    splitGroups? (length :: lengths) (group ++ '-' :: after) =
      (splitGroups? lengths after).map (group ++ ·) := by
  subst hgroup
  cases lengths with
  | nil => exact absurd rfl hlengths
  | cons next lengths => simp [splitGroups?]

theorem splitGroups?_groups {ds : List Char} (h : ds.length = 32) :
    splitGroups? groupLengths
      (ds.take 8 ++ '-' :: ((ds.drop 8).take 4 ++ '-' :: ((ds.drop 12).take 4 ++
        '-' :: ((ds.drop 16).take 4 ++ '-' :: ds.drop 20)))) = some ds := by
  rw [groupLengths, splitGroups?_append (by simp) (by simp; omega),
    splitGroups?_append (by simp) (by simp; omega), splitGroups?_append (by simp) (by simp; omega),
    splitGroups?_append (by simp) (by simp; omega), splitGroups?, if_pos (by simp; omega)]
  have hrest (n : Nat) : (ds.drop n).take 4 ++ ds.drop (n + 4) = ds.drop n := by
    rw [← List.drop_drop, List.take_append_drop]
  simp only [Option.map_some, hrest 16, hrest 12, hrest 8, List.take_append_drop]

theorem length_hexChars (width n : Nat) : (Hex.chars width n).length = width := by
  rw [Hex.chars, List.length_map, Digits.length_fixed]

theorem length_chars (i : Identifier) : i.chars.length = 36 := by
  have h := length_hexChars 32 i.bits.toNat
  simp only [chars, List.length_append, List.length_cons, List.length_take, List.length_drop, h]
  rfl

theorem ofGroups?_chars (i : Identifier) : ofGroups? i.chars = some i := by
  have hlength := length_hexChars 32 i.bits.toNat
  have hbits : i.bits.toNat < 16 ^ 32 := i.bits.isLt
  rw [ofGroups?, chars, splitGroups?_groups hlength, Option.bind_some, ofDigits?, if_pos hlength,
    Hex.ofChars?_chars hbits, Option.map_some]
  simp

@[simp]
theorem ofText?_text (i : Identifier) : ofText? i.text = some i := by
  have h := length_chars i
  rw [ofText?, text, String.toList_ofList, ofChars?, if_neg (by omega), if_neg (by omega),
    if_neg (by omega), ofGroups?_chars]

end Identifier

namespace WorldId

@[simp]
theorem ofText?_text (w : WorldId) : ofText? w.text = some w := by
  rw [ofText?, text, Identifier.ofText?_text]
  rfl

theorem text_injective : Function.Injective text := by
  intro a b h
  have hread := congrArg ofText? h
  simpa using hread

@[simp]
theorem text_inj {a b : WorldId} : a.text = b.text ↔ a = b := text_injective.eq_iff

theorem topic_injective : Function.Injective topic := by
  intro a b h
  have hchars := congrArg String.toList h
  simp only [topic, String.toList_append, List.append_assoc, List.append_cancel_left_eq,
    List.append_cancel_right_eq] at hchars
  exact text_injective (String.toList_injective hchars)

end WorldId

end WorldClock
