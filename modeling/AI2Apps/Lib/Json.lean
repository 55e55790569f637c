import AI2Apps.Lib.TextOrder
import Mathlib.Data.Rat.Defs

/-!
# JSON values with the equality of the modelled language

A decoded JSON document: integers are unbounded, floats are the numbers they
denote, strings are code points, objects are key-value lists in document order
whose keys the decoder has already made unique.  `pyEq` is the `==` the source
applies to such values; it identifies booleans and floats with the integers they
equal and ignores the order of object members.
-/

namespace AI2Apps

/-- The values of a binary floating-point number. -/
inductive FloatVal where
  | finite (q : ℚ)
  | posInf
  | negInf
  | nan
  deriving DecidableEq

/-- `a < b` for floats. -/
def floatLt : FloatVal → FloatVal → Bool
  | .finite a, .finite b => a < b
  | .negInf, .finite _ | .negInf, .posInf | .finite _, .posInf => true
  | _, _ => false

def floatEq : FloatVal → FloatVal → Bool
  | .nan, _ => false
  | a, b => a = b

/-- A decoded JSON value. -/
inductive Json where
  | null
  | bool (b : Bool)
  | int (i : ℤ)
  | float (f : FloatVal)
  | str (s : Str)
  | arr (items : List Json)
  | obj (members : List (Str × Json))

namespace Json

/-- The members of an object. -/
abbrev Object := List (Str × Json)

/-- `value.get(key)`; the decoder has left one member for each key. -/
def lookup (key : Str) : Object → Option Json
  | [] => none
  | (k, v) :: rest => if k = key then some v else lookup key rest

/-- `set(value)`: the keys of an object. -/
def keys (o : Object) : List Str := o.map Prod.fst

/-- `set(value) == names`, for duplicate-free names. -/
def keysEq (o : Object) (names : List Str) : Bool :=
  (keys o).all (fun k => k ∈ names) && names.all (fun k => k ∈ keys o)

/-- The number a value is for `==`: booleans count as 0 and 1. -/
def num? : Json → Option FloatVal
  | bool b => some (.finite b.toNat)
  | int i => some (.finite i)
  | float f => some f
  | _ => none

/-- `isinstance(value, int) and not isinstance(value, bool)`. -/
def int? : Json → Option ℤ
  | int i => some i
  | _ => none

/-- `isinstance(value, str)`. -/
def str? : Json → Option Str
  | str s => some s
  | _ => none

/-- `isinstance(value, dict)`. -/
def obj? : Json → Option Object
  | obj o => some o
  | _ => none

/-- `isinstance(value, list)`. -/
def arr? : Json → Option (List Json)
  | arr items => some items
  | _ => none

/-- `value is None`. -/
def isNull : Json → Bool
  | null => true
  | _ => false

mutual

/-- `a == b` on decoded values. -/
def pyEq : Json → Json → Bool
  | null, null => true
  | str s, str t => s == t
  | arr xs, arr ys => pyEqList xs ys
  | obj xs, obj ys => xs.length == ys.length && pyEqObj xs ys
  | bool a, y => decide ((bool a).num? = y.num?)
  | int a, y => decide ((int a).num? = y.num?)
  | float .nan, _ => false
  | float a, y => decide ((float a).num? = y.num?)
  | _, _ => false

/-- Lists are equal item by item. -/
def pyEqList : List Json → List Json → Bool
  | [], [] => true
  | x :: xs, y :: ys => pyEq x y && pyEqList xs ys
  | _, _ => false

/-- Every member of the first object has an equal member in the second. -/
def pyEqObj : List (Str × Json) → Object → Bool
  | [], _ => true
  | (k, v) :: rest, ys =>
    (match lookup k ys with
      | some w => pyEq v w
      | none => false) && pyEqObj rest ys

end

mutual

/-- Two values with one canonical text: `json.dumps` with sorted keys prints them alike. -/
def sameText : Json → Json → Bool
  | null, null => true
  | bool a, bool b => a == b
  | int a, int b => a == b
  | float a, float b => a == b
  | str s, str t => s == t
  | arr xs, arr ys => sameTextItems xs ys
  | obj xs, obj ys => ys.all (fun member => (lookup member.1 xs).isSome) && sameTextMembers [] xs ys
  | _, _ => false

def sameTextItems : List Json → List Json → Bool
  | [], [] => true
  | x :: xs, y :: ys => sameText x y && sameTextItems xs ys
  | _, _ => false

/-- Every member of the first object is printed like one of the second; under a key that was seen
there is nothing to print. -/
def sameTextMembers (seen : List Str) : List (Str × Json) → Object → Bool
  | [], _ => true
  | (k, v) :: rest, ys =>
    (k ∈ seen || match lookup k ys with
      | some w => sameText v w
      | none => false) && sameTextMembers (k :: seen) rest ys

end

/-- `data.get(key) == expected`; a missing member is the null of the language. -/
def memberEq (o : Object) (key : Str) (expected : Json) : Bool :=
  pyEq ((lookup key o).getD null) expected

/-- Only a text equals a text. -/
theorem pyEq_str_iff {v : Json} {s : Str} : pyEq v (.str s) = true ↔ v = .str s := by
  cases v with
  | null => simp [pyEq]
  | bool b => simp [pyEq, num?]
  | int i => simp [pyEq, num?]
  | float f => cases f <;> simp [pyEq, num?]
  | str t => simp [pyEq]
  | arr items => simp [pyEq]
  | obj members => simp [pyEq]

theorem memberEq_str_iff {o : Object} {key s : Str} :
    memberEq o key (.str s) = true ↔ lookup key o = some (.str s) := by
  rw [memberEq, pyEq_str_iff]
  cases lookup key o <;> simp

/-- A member that is an integer equals it. -/
theorem memberEq_int_self {o : Object} {key : Str} {i : ℤ} (h : lookup key o = some (.int i)) :
    memberEq o key (.int i) = true := by
  rw [memberEq, h]
  simp [pyEq]

theorem lookup_isSome_of_mem {o : Object} {member : Str × Json} (h : member ∈ o) :
    (lookup member.1 o).isSome = true := by
  induction o with
  | nil => exact nomatch h
  | cons first rest ih =>
    obtain ⟨k, v⟩ := first
    rw [lookup]
    split
    · rfl
    · rcases List.mem_cons.mp h with rfl | h
      · exact absurd rfl ‹_›
      · exact ih h

mutual

/-- A value has its own text. -/
theorem sameText_refl : ∀ v : Json, sameText v v = true
  | .null => rfl
  | .bool b => by rw [sameText, beq_self_eq_true]
  | .int i => by rw [sameText, beq_self_eq_true]
  | .float f => by rw [sameText, beq_self_eq_true]
  | .str s => by rw [sameText, beq_self_eq_true]
  | .arr items => by rw [sameText, sameTextItems_refl items]
  | .obj members => by
    rw [sameText, Bool.and_eq_true]
    exact ⟨List.all_eq_true.mpr fun _ => lookup_isSome_of_mem,
      sameTextMembers_refl members [] members fun _ _ => rfl⟩

theorem sameTextItems_refl : ∀ items : List Json, sameTextItems items items = true
  | [] => rfl
  | v :: items => by rw [sameTextItems, sameText_refl v, sameTextItems_refl items]; rfl

/-- Members that are found under their keys, but for the keys that were seen. -/
theorem sameTextMembers_refl : ∀ (members : Object) (seen : List Str) (ys : Object),
    (∀ k, k ∉ seen → lookup k members = lookup k ys) → sameTextMembers seen members ys = true
  | [], _, _, _ => by rw [sameTextMembers]
  | (k, v) :: members, seen, ys, h => by
    rw [sameTextMembers, Bool.and_eq_true, Bool.or_eq_true, decide_eq_true_eq]
    refine ⟨or_iff_not_imp_left.mpr fun hseen => ?_,
      sameTextMembers_refl members (k :: seen) ys fun k' hk' => ?_⟩
    · rw [← h k hseen, lookup, if_pos rfl]
      exact sameText_refl v
    · rw [List.mem_cons, not_or] at hk'
      rw [← h k' hk'.2, lookup, if_neg (Ne.symm hk'.1)]

end

end Json

end AI2Apps
