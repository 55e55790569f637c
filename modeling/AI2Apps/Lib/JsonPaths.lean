import AI2Apps.Lib.JsonText

/-!
# Paths of keys

The value at a path of keys in a document, and the paths that a change at one of them leaves alone.

* `at?`: the value at a path.
* `Open`: nothing but objects is on the way to a path.
* `Apart`: neither of two paths begins the other.
* `at?_empty`, `open_empty`: in an empty object every path is open and none has a value.
-/

namespace AI2Apps.Json

/-- The value at a path. -/
def at? : List Str → Json → Option Json
  | [], v => some v
  | key :: rest, .obj o => (lookup key o).bind (at? rest)
  | _ :: _, _ => none

/-- What is on the way to the path is an object. -/
def Open : List Str → Json → Prop
  | [], _ => True
  | key :: rest, .obj o => ∀ v, lookup key o = some v → Open rest v
  | _ :: _, _ => False

/-- Neither path begins the other. -/
def Apart (path other : List Str) : Prop := ¬ path <+: other ∧ ¬ other <+: path

variable {key key' : Str} {rest path other : List Str} {o : Object} {v : Json}

theorem Apart.symm (h : Apart path other) : Apart other path := ⟨h.2, h.1⟩

/-- A path apart from one is not empty. -/
theorem Apart.exists_cons (h : Apart path other) : ∃ key rest, other = key :: rest :=
  List.exists_cons_of_ne_nil fun hempty => h.2 (hempty ▸ List.nil_prefix)

theorem Apart.tail (h : Apart (key :: rest) (key :: other)) : Apart rest other :=
  ⟨fun hprefix => h.1 (List.cons_prefix_cons.mpr ⟨rfl, hprefix⟩),
    fun hprefix => h.2 (List.cons_prefix_cons.mpr ⟨rfl, hprefix⟩)⟩

theorem Apart.ne_of_singleton (h : Apart [key] (key' :: rest)) : key ≠ key' :=
  fun heq => h.1 (List.cons_prefix_cons.mpr ⟨heq, List.nil_prefix⟩)

theorem at?_cons : at? (key :: rest) (.obj o) = (lookup key o).bind (at? rest) := rfl

theorem at?_singleton : at? [key] (.obj o) = lookup key o := by
  rw [at?_cons]
  cases lookup key o <;> rfl

theorem at?_of_lookup (h : lookup key o = some v) : at? (key :: rest) (.obj o) = at? rest v := by
  rw [at?_cons, h]
  rfl

theorem at?_of_lookup_none (h : lookup key o = none) : at? (key :: rest) (.obj o) = none := by
  rw [at?_cons, h]
  rfl

theorem open_of_lookup (h : lookup key o = some v) : Open (key :: rest) (.obj o) ↔ Open rest v := by
  refine ⟨fun hopen => hopen v h, fun hopen w hw => ?_⟩
  obtain rfl := Option.some.inj (h.symm.trans hw)
  exact hopen

theorem open_of_lookup_none (h : lookup key o = none) : Open (key :: rest) (.obj o) := by
  intro v hv
  rw [h] at hv
  cases hv

/-- In an empty object no path has a value, -/
theorem at?_empty (key : Str) (rest : List Str) : at? (key :: rest) (.obj []) = none := rfl

/-- and every path is open. -/
theorem open_empty : ∀ path : List Str, Open path (.obj [])
  | [] => trivial
  | _ :: _ => open_of_lookup_none rfl

/-- With the same member the paths through it are the same. -/
theorem at?_congr {o' : Object} (h : lookup key o' = lookup key o) :
    at? (key :: rest) (.obj o') = at? (key :: rest) (.obj o) := by
  rw [at?_cons, at?_cons, h]

theorem open_congr {o' : Object} (h : lookup key o' = lookup key o) :
    Open (key :: rest) (.obj o') ↔ Open (key :: rest) (.obj o) := by
  rw [Open, Open, h]

/-- A member set to the value it has. -/
theorem setMember_eq_self : ∀ {o : Object}, lookup key o = some v → JsonText.setMember key v o = o
  | (k, w) :: o, h => by
    rw [lookup] at h
    rw [JsonText.setMember]
    split_ifs at h ⊢ with hkey
    · rw [← hkey, Option.some.inj h]
    · rw [setMember_eq_self h]

/-- A member taken out. -/
theorem lookup_filter_ne (key key' : Str) : ∀ o : Object,
    lookup key' (o.filter fun member => member.1 ≠ key) = if key' = key then none else lookup key' o
  | [] => (ite_self none).symm
  | (k, w) :: o => by
    by_cases hkey : k = key
    · rw [List.filter_cons_of_neg (by simpa using hkey), lookup_filter_ne key key' o, lookup]
      split_ifs with h h'
      · rfl
      · exact absurd (h'.symm.trans hkey) h
      · rfl
    · rw [List.filter_cons_of_pos (by simpa using hkey), lookup, lookup, lookup_filter_ne key key' o]
      split_ifs with h h' h'
      · exact absurd (h.trans h') hkey
      · rfl
      · rfl
      · rfl

end AI2Apps.Json
