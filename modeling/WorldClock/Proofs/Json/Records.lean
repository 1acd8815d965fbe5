import WorldClock.Json.Record
import WorldClock.Proofs.Json.Values

/-!
# Records read back

A record that is written as an object with all its members is found whole by its reader, under each
of its names.
-/

namespace WorldClock.Json

theorem isWritten_ofText (s : String) : (ofText s).IsWritten := ⟨Text.bytes s, rfl⟩

theorem isWritten_ofNat (n : Nat) : (ofNat n).IsWritten := Numeral.isProper_ofNat n

@[simp]
theorem toText?_ofText (s : String) : toText? (ofText s) = some s := stringText?_escape s

@[simp]
theorem toBool?_bool (b : Bool) : toBool? (.bool b) = some b := rfl

theorem areWrittenMembers_map {members : List (String × Json)}
    (h : ∀ m ∈ members, m.2.IsWritten) :
    AreWrittenMembers (members.map fun (name, value) => (escape (Text.bytes name), value)) := by
  induction members with
  | nil => trivial
  | cons m members ih =>
    exact ⟨⟨_, rfl⟩, h m (by simp), ih fun m hm => h m (by simp [hm])⟩

theorem isWritten_ofMembers {members : List (String × Json)}
    (h : ∀ m ∈ members, m.2.IsWritten) : (ofMembers members).IsWritten :=
  areWrittenMembers_map h

theorem namedMembers?_map (members : List (String × Json)) :
    namedMembers? (members.map fun (name, value) => (escape (Text.bytes name), value)) =
      some members := by
  rw [namedMembers?]
  induction members with
  | nil => rfl
  | cons m members ih => simp [List.mapM_cons, ih]

/-- Every member of a record is found under its name, and nothing else is. -/
theorem record?_ofMembers {names : List String} {members : List (String × Json)}
    (hnames : members.map (·.1) = names) (hnodup : names.Nodup) (closed : Bool) :
    record? names closed (ofMembers members) = some ⟨false, members⟩ := by
  have hknown : members.filter (fun (name, _) => names.contains name) = members := by
    refine List.filter_eq_self.mpr fun m hm => ?_
    rw [← hnames]
    simpa using ⟨m.2, hm⟩
  simp only [record?, ofMembers, namedMembers?_map, Option.bind_eq_bind, Option.bind_some, hknown]
  exact if_pos ⟨by rwa [hnames], fun _ => trivial⟩

namespace Record

variable {α : Type} {name other : String} {j : Json} {members : List (String × Json)}
  {positional : Bool} {default : α} {decode : Json → Option α}

@[simp]
theorem required_cons_self :
    required ⟨positional, (name, j) :: members⟩ name decode = decode j := by
  rw [required, List.lookup_cons_self, Option.bind_some]

@[simp]
theorem required_cons_of_ne (h : name ≠ other) :
    required ⟨positional, (other, j) :: members⟩ name decode =
      required ⟨positional, members⟩ name decode := by
  rw [required, List.lookup_cons, beq_eq_false_iff_ne.mpr h]
  rfl

@[simp]
theorem defaulted_cons_self :
    defaulted ⟨positional, (name, j) :: members⟩ name default decode = decode j := by
  rw [defaulted, List.lookup_cons_self]

@[simp]
theorem defaulted_cons_of_ne (h : name ≠ other) :
    defaulted ⟨positional, (other, j) :: members⟩ name default decode =
      defaulted ⟨positional, members⟩ name default decode := by
  rw [defaulted, List.lookup_cons, beq_eq_false_iff_ne.mpr h]
  rfl

end Record

end WorldClock.Json
