import AI2Apps.Lib.Json

/-!
# JSON Schema

The keywords of draft 2020-12 that closed records of scalars, arrays and nested
records need.  `Schema.validates` is the verdict of a validator; what counts as a
UUID is left to the format checker.

* `Schema.record`: an object whose properties are all required and which has no
  other members.
* `validates_record_iff`, `validates_array_iff`: what a valid object or array is
  made of.
-/

namespace AI2Apps

/-- A schema.  A pattern is the set of texts it is found in. -/
inductive Schema where
  | const (value : Str)
  | enum (values : List Str)
  | string (minLength : ℕ) (maxLength : Option ℕ) (pattern : Option (Str → Bool))
  | uuid
  | integer (minimum maximum : ℤ)
  | null
  | object
  | array (minItems maxItems : ℕ) (items : Schema)
  | record (properties : List (Str × Schema))

namespace Schema

/-- An integer for the schema: a float without fraction is one. -/
def integerValue? : Json → Option ℚ
  | .int i => some i
  | .float (.finite q) => if q.isInt then some q else none
  | _ => none

mutual

/-- The verdict on a value. -/
def validates (isUuid : Str → Bool) : Schema → Json → Bool
  | .const value, v => v.str? == some value
  | .enum values, v => v.str?.any (fun s => s ∈ values)
  | .string minLength maxLength pattern, v => v.str?.any fun s =>
    minLength ≤ s.length && maxLength.all (fun m => s.length ≤ m) && pattern.all (fun p => p s)
  | .uuid, v => v.str?.any isUuid
  | .integer minimum maximum, v => (integerValue? v).any fun q : ℚ => minimum ≤ q && q ≤ maximum
  | .null, v => v.isNull
  | .object, v => v.obj?.isSome
  | .array minItems maxItems items, v => v.arr?.any fun vs =>
    minItems ≤ vs.length && vs.length ≤ maxItems && vs.all (fun w => validates isUuid items w)
  | .record properties, v => v.obj?.any fun o =>
    (Json.keys o).all (fun k => k ∈ properties.map Prod.fst) &&
      validatesProperties isUuid properties o

/-- Every property is there and valid. -/
def validatesProperties (isUuid : Str → Bool) : List (Str × Schema) → Json.Object → Bool
  | [], _ => true
  | (k, s) :: rest, o =>
    (match Json.lookup k o with
      | some v => validates isUuid s v
      | none => false) && validatesProperties isUuid rest o

end

variable {isUuid : Str → Bool}

theorem validatesProperties_iff {properties : List (Str × Schema)} {o : Json.Object} :
    validatesProperties isUuid properties o = true ↔
      ∀ p ∈ properties, ∃ v, Json.lookup p.1 o = some v ∧ validates isUuid p.2 v = true := by
  induction properties with
  | nil => simp [validatesProperties]
  | cons p rest ih =>
    rw [validatesProperties, Bool.and_eq_true, ih, List.forall_mem_cons]
    refine and_congr_left fun _ => ?_
    cases Json.lookup p.1 o <;> simp

theorem any_obj?_iff {p : Json.Object → Bool} {v : Json} :
    v.obj?.any p = true ↔ ∃ o, v = .obj o ∧ p o = true := by
  rw [Option.any_eq_true]
  refine exists_congr fun o => and_congr_left fun _ => ?_
  cases v with
  | obj o' => rw [Json.obj?, Option.some.injEq, Json.obj.injEq]
  | _ => exact iff_of_false (Option.some_ne_none o ∘ Eq.symm) (by rintro ⟨⟩)

theorem any_arr?_iff {p : List Json → Bool} {v : Json} :
    v.arr?.any p = true ↔ ∃ vs, v = .arr vs ∧ p vs = true := by
  rw [Option.any_eq_true]
  refine exists_congr fun vs => and_congr_left fun _ => ?_
  cases v with
  | arr vs' => rw [Json.arr?, Option.some.injEq, Json.arr.injEq]
  | _ => exact iff_of_false (Option.some_ne_none vs ∘ Eq.symm) (by rintro ⟨⟩)

/-- A valid record has every property, valid, and nothing else. -/
theorem validates_record_iff {properties : List (Str × Schema)} {v : Json} :
    validates isUuid (.record properties) v = true ↔
      ∃ o, v = .obj o ∧ (∀ k ∈ Json.keys o, k ∈ properties.map Prod.fst) ∧
        ∀ p ∈ properties, ∃ w, Json.lookup p.1 o = some w ∧ validates isUuid p.2 w = true := by
  rw [validates, any_obj?_iff]
  refine exists_congr fun o => and_congr_right fun _ => ?_
  rw [Bool.and_eq_true, List.all_eq_true, validatesProperties_iff]
  simp only [decide_eq_true_eq]

/-- A valid array has an admitted length and valid items. -/
theorem validates_array_iff {minItems maxItems : ℕ} {items : Schema} {v : Json} :
    validates isUuid (.array minItems maxItems items) v = true ↔
      ∃ vs, v = .arr vs ∧ minItems ≤ vs.length ∧ vs.length ≤ maxItems ∧
        ∀ w ∈ vs, validates isUuid items w = true := by
  rw [validates, any_arr?_iff]
  refine exists_congr fun vs => and_congr_right fun _ => ?_
  rw [Bool.and_eq_true, Bool.and_eq_true, decide_eq_true_eq, decide_eq_true_eq, and_assoc,
    List.all_eq_true]

end Schema

end AI2Apps
