import Mathlib.Data.List.Nodup
import Mathlib.Tactic.SplitIfs

/-!
# Dictionaries in insertion order

A dictionary is the list of its entries, no two with one key.  An assignment
replaces the value at the key's place or appends an entry; a merge assigns given
entries in turn.  What a lookup finds afterwards is said
once here, and membership is a lookup (`mem_entries_iff`).

* `get?_put`, `get?_erase`, `get?_setDefault`: one rule for each operation.
* `rekey`: the entries whose keys have a translation.
-/

namespace AI2Apps

/-- Entries in insertion order, no two with one key. -/
structure Dict (κ α : Type) where
  entries : List (κ × α)
  nodup : (entries.map Prod.fst).Nodup

namespace Dict

variable {κ κ' α β : Type}

/-- `{}`. -/
def empty : Dict κ α := ⟨[], List.nodup_nil⟩

section Operations

variable [DecidableEq κ]

/-- The first value at a key. -/
def find (k : κ) : List (κ × α) → Option α
  | [] => none
  | (k', a) :: rest => if k' = k then some a else find k rest

/-- `d.get(k)`. -/
def get? (d : Dict κ α) (k : κ) : Option α := find k d.entries

/-- The entries after an assignment. -/
def assign (k : κ) (a : α) : List (κ × α) → List (κ × α)
  | [] => [(k, a)]
  | (k', b) :: rest => if k' = k then (k, a) :: rest else (k', b) :: assign k a rest

theorem mem_keys_assign {k x : κ} {a : α} {l : List (κ × α)} :
    x ∈ (assign k a l).map Prod.fst ↔ x = k ∨ x ∈ l.map Prod.fst := by
  induction l with
  | nil => simp [assign]
  | cons e l ih =>
    obtain ⟨k', b⟩ := e
    unfold assign
    split_ifs with h
    · subst h
      simp
    · rw [List.map_cons, List.mem_cons, ih, List.map_cons, List.mem_cons]
      exact or_left_comm

theorem nodup_assign {k : κ} {a : α} {l : List (κ × α)} (h : (l.map Prod.fst).Nodup) :
    ((assign k a l).map Prod.fst).Nodup := by
  induction l with
  | nil => exact List.nodup_singleton k
  | cons e l ih =>
    obtain ⟨k', b⟩ := e
    rw [List.map_cons, List.nodup_cons] at h
    unfold assign
    split_ifs with hk
    · subst hk
      exact List.nodup_cons.mpr h
    · refine List.nodup_cons.mpr ⟨fun hmem => ?_, ih h.2⟩
      rcases mem_keys_assign.mp hmem with rfl | hmem
      · exact hk rfl
      · exact h.1 hmem

/-- `d[k] = a`. -/
def put (d : Dict κ α) (k : κ) (a : α) : Dict κ α := ⟨assign k a d.entries, nodup_assign d.nodup⟩

/-- `d.pop(k)`. -/
def erase (d : Dict κ α) (k : κ) : Dict κ α :=
  ⟨d.entries.filter fun e => e.1 ≠ k, d.nodup.sublist (List.filter_sublist.map Prod.fst)⟩

/-- `d.setdefault(k, a)`. -/
def setDefault (d : Dict κ α) (k : κ) (a : α) : Dict κ α :=
  if (d.get? k).isSome then d else d.put k a

/-- `{**d, **entries}`. -/
def merge (d : Dict κ α) (entries : List (κ × α)) : Dict κ α :=
  entries.foldl (fun d e => d.put e.1 e.2) d

end Operations

section Rules

variable [DecidableEq κ] {d : Dict κ α} {k x : κ} {a : α}

theorem find_assign (k x : κ) (a : α) (l : List (κ × α)) :
    find x (assign k a l) = if k = x then some a else find x l := by
  induction l with
  | nil => rfl
  | cons e l ih =>
    obtain ⟨k', b⟩ := e
    unfold assign
    by_cases hk : k' = k
    · subst hk
      rw [if_pos rfl, find, find]
      split_ifs <;> rfl
    · rw [if_neg hk, find, find, ih]
      split_ifs with h h'
      · exact absurd (h.trans h'.symm) hk
      · rfl
      · rfl
      · rfl

theorem get?_put (d : Dict κ α) (k x : κ) (a : α) :
    (d.put k a).get? x = if k = x then some a else d.get? x :=
  find_assign k x a d.entries

@[simp] theorem get?_put_self (d : Dict κ α) (k : κ) (a : α) : (d.put k a).get? k = some a := by
  rw [get?_put, if_pos rfl]

theorem get?_put_of_ne (h : k ≠ x) : (d.put k a).get? x = d.get? x := by
  rw [get?_put, if_neg h]

theorem get?_erase (d : Dict κ α) (k x : κ) :
    (d.erase k).get? x = if k = x then none else d.get? x := by
  show find x (d.entries.filter fun e => e.1 ≠ k) = if k = x then none else find x d.entries
  induction d.entries with
  | nil =>
    rw [List.filter_nil, find]
    split_ifs <;> rfl
  | cons e l ih =>
    obtain ⟨k', b⟩ := e
    by_cases hk : k' = k
    · subst hk
      rw [List.filter_cons_of_neg (by simp), ih, find]
      split_ifs <;> rfl
    · rw [List.filter_cons_of_pos (by simpa using hk), find, find, ih]
      split_ifs with h h'
      · exact absurd (h.trans h'.symm) hk
      · rfl
      · rfl
      · rfl

theorem get?_setDefault (d : Dict κ α) (k x : κ) (a : α) :
    (d.setDefault k a).get? x = if k = x then some ((d.get? k).getD a) else d.get? x := by
  unfold setDefault
  cases hk : d.get? k with
  | some b =>
    show d.get? x = if k = x then some b else d.get? x
    split_ifs with h
    · rw [← h, hk]
    · rfl
  | none => exact get?_put d k x a

theorem find_eq_some_iff {l : List (κ × α)} (h : (l.map Prod.fst).Nodup) :
    find k l = some a ↔ (k, a) ∈ l := by
  induction l with
  | nil => simp [find]
  | cons e l ih =>
    obtain ⟨k', b⟩ := e
    rw [List.map_cons, List.nodup_cons] at h
    rw [find, List.mem_cons]
    split_ifs with hk
    · subst hk
      constructor
      · intro hb
        rw [Option.some.inj hb]
        exact .inl rfl
      · rintro (heq | hmem)
        · rw [(Prod.mk.inj heq).2]
        · exact absurd (List.mem_map_of_mem hmem) h.1
    · rw [ih h.2]
      constructor
      · exact .inr
      · rintro (heq | hmem)
        · exact absurd (Prod.mk.inj heq).1.symm hk
        · exact hmem

/-- **Membership is a lookup.** -/
theorem mem_entries_iff : (k, a) ∈ d.entries ↔ d.get? k = some a :=
  (find_eq_some_iff d.nodup).symm

end Rules

section Merge

variable [DecidableEq κ] {k : κ} {a : α}

/-- What is found after a merge was assigned or was there. -/
theorem mem_of_get?_merge {d : Dict κ α} {l : List (κ × α)} (h : (d.merge l).get? k = some a) :
    (k, a) ∈ l ∨ d.get? k = some a := by
  induction l generalizing d with
  | nil => exact .inr h
  | cons e l ih =>
    rcases ih h with hmem | hget
    · exact .inl (List.mem_cons_of_mem e hmem)
    · rw [get?_put] at hget
      split_ifs at hget with hk
      · rw [← hk, ← Option.some.inj hget]
        exact .inl List.mem_cons_self
      · exact .inr hget

theorem get?_merge_of_notMem {d : Dict κ α} {l : List (κ × α)} (h : k ∉ l.map Prod.fst) :
    (d.merge l).get? k = d.get? k := by
  induction l generalizing d with
  | nil => rfl
  | cons e l ih =>
    rw [List.map_cons, List.mem_cons, not_or] at h
    exact (ih h.2).trans (get?_put_of_ne (Ne.symm h.1))

/-- A merge of distinct keys assigns each of them. -/
theorem get?_merge_of_mem {d : Dict κ α} {l : List (κ × α)} (hl : (l.map Prod.fst).Nodup)
    (h : (k, a) ∈ l) : (d.merge l).get? k = some a := by
  induction l generalizing d with
  | nil => exact nomatch h
  | cons e l ih =>
    rw [List.map_cons, List.nodup_cons] at hl
    rcases List.mem_cons.mp h with rfl | hmem
    · exact (get?_merge_of_notMem hl.1).trans (get?_put_self d k a)
    · exact ih hl.2 hmem

end Merge

/-- The entries whose keys have a translation, no two keys with one. -/
def rekey (d : Dict κ α) (f : κ → Option κ') (g : α → β)
    (hf : ∀ k k' x, f k = some x → f k' = some x → k = k') : Dict κ' β where
  entries := d.entries.filterMap fun e => (f e.1).map fun x => (x, g e.2)
  nodup := by
    have hkeys : (d.entries.filterMap fun e => (f e.1).map fun x => (x, g e.2)).map Prod.fst =
        (d.entries.map Prod.fst).filterMap f := by
      rw [List.map_filterMap, List.filterMap_map]
      refine congrArg (fun p => d.entries.filterMap p) (funext fun e => ?_)
      show ((f e.1).map fun x => (x, g e.2)).map Prod.fst = f e.1
      cases f e.1 <;> rfl
    rw [hkeys]
    exact d.nodup.filterMap fun k k' x hx hx' => hf k k' x hx hx'

theorem mem_rekey {d : Dict κ α} {f : κ → Option κ'} {g : α → β}
    {hf : ∀ k k' x, f k = some x → f k' = some x → k = k'} {x : κ'} {b : β} :
    (x, b) ∈ (d.rekey f g hf).entries ↔ ∃ k a, (k, a) ∈ d.entries ∧ f k = some x ∧ g a = b := by
  show (x, b) ∈ d.entries.filterMap _ ↔ _
  rw [List.mem_filterMap]
  constructor
  · rintro ⟨⟨k, a⟩, hmem, hmap⟩
    obtain ⟨y, hy, heq⟩ := Option.map_eq_some_iff.mp hmap
    obtain ⟨rfl, rfl⟩ := Prod.mk.inj heq
    exact ⟨k, a, hmem, hy, rfl⟩
  · rintro ⟨k, a, hmem, hx, rfl⟩
    refine ⟨(k, a), hmem, ?_⟩
    rw [hx]
    rfl

end Dict

end AI2Apps
