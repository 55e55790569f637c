import Mathlib.Data.List.Nodup

/-!
# Tables with a primary key

A table is the list of its rows in insertion order, no two with one key.  The
three statements a repository issues on it are a lookup by key, an insertion,
which fails for a key that is taken, and an update of the rows that satisfy a
condition, which leaves every key as it is.  What a lookup finds after a write is
said once here; a program's invariants are read through `get?`.

* `get?_eq_some_iff`: a lookup finds the one row with the key.
* `get?_insert`, `get?_update`: what a lookup finds after a write.
-/

namespace AI2Apps

/-- Rows in insertion order, no two with one key. -/
structure Table (ρ : Type) {κ : Type} (key : ρ → κ) where
  rows : List ρ
  nodup : (rows.map key).Nodup

namespace Table

variable {ρ κ : Type} {key : ρ → κ}

/-- The table without rows. -/
def empty : Table ρ key := ⟨[], List.nodup_nil⟩

variable [DecidableEq κ]

/-- `SELECT * ... WHERE key = ?`. -/
def get? (t : Table ρ key) (k : κ) : Option ρ := t.rows.find? fun r => key r = k

/-- `INSERT`: there is no second row with one key. -/
def insert? (t : Table ρ key) (r : ρ) : Option (Table ρ key) :=
  if h : key r ∈ t.rows.map key then none
  else some
    { rows := t.rows ++ [r]
      nodup := by
        rw [List.map_append, List.map_singleton]
        exact t.nodup.append (List.nodup_singleton _) (List.disjoint_singleton.mpr h) }

/-- `UPDATE ... WHERE p`: the keys stay. -/
def update (t : Table ρ key) (p : ρ → Bool) (f : ρ → ρ) (hf : ∀ r, key (f r) = key r) :
    Table ρ key where
  rows := t.rows.map fun r => if p r then f r else r
  nodup := by
    have hkeys : (t.rows.map fun r => if p r then f r else r).map key = t.rows.map key := by
      rw [List.map_map]
      refine List.map_congr_left fun r _ => ?_
      show key (if p r then f r else r) = key r
      split
      · exact hf r
      · rfl
    rw [hkeys]
    exact t.nodup

/-- `DELETE ... WHERE p`. -/
def delete (t : Table ρ key) (p : ρ → Bool) : Table ρ key where
  rows := t.rows.filter fun r => !p r
  nodup := t.nodup.sublist (List.filter_sublist.map key)

omit [DecidableEq κ] in
theorem eq_of_rows {t t' : Table ρ key} (h : t.rows = t'.rows) : t = t' := by
  cases t
  cases h
  rfl

omit [DecidableEq κ] in
/-- Two rows with one key are one row. -/
theorem eq_of_key_eq {t : Table ρ key} {r r' : ρ} (hr : r ∈ t.rows) (hr' : r' ∈ t.rows)
    (h : key r = key r') : r = r' :=
  List.inj_on_of_nodup_map t.nodup hr hr' h

/-- **A lookup finds the row with the key.** -/
theorem get?_eq_some_iff {t : Table ρ key} {k : κ} {r : ρ} :
    t.get? k = some r ↔ r ∈ t.rows ∧ key r = k := by
  constructor
  · intro h
    exact ⟨List.mem_of_find?_eq_some h, by simpa using List.find?_some h⟩
  · rintro ⟨hr, rfl⟩
    cases hfind : t.get? (key r) with
    | none =>
      have := List.find?_eq_none.mp hfind r hr
      simp at this
    | some r' =>
      have hkey : key r' = key r := by simpa using List.find?_some hfind
      rw [eq_of_key_eq (List.mem_of_find?_eq_some hfind) hr hkey]

theorem get?_of_mem {t : Table ρ key} {r : ρ} (h : r ∈ t.rows) : t.get? (key r) = some r :=
  get?_eq_some_iff.mpr ⟨h, rfl⟩

theorem mem_of_get? {t : Table ρ key} {k : κ} {r : ρ} (h : t.get? k = some r) : r ∈ t.rows :=
  (get?_eq_some_iff.mp h).1

theorem key_of_get? {t : Table ρ key} {k : κ} {r : ρ} (h : t.get? k = some r) : key r = k :=
  (get?_eq_some_iff.mp h).2

/-- What an insertion leaves. -/
theorem rows_insert {t t' : Table ρ key} {r : ρ} (h : t.insert? r = some t') :
    t'.rows = t.rows ++ [r] ∧ t.get? (key r) = none := by
  unfold insert? at h
  split at h
  · exact absurd h (by simp)
  · rename_i hfresh
    refine ⟨(congrArg Table.rows (Option.some.inj h)).symm, ?_⟩
    cases hfind : t.get? (key r) with
    | none => rfl
    | some r' =>
      refine absurd (List.mem_map.mpr ⟨r', mem_of_get? hfind, ?_⟩) hfresh
      exact key_of_get? hfind

/-- After an insertion the new row is found, and every other as before. -/
theorem get?_insert {t t' : Table ρ key} {r : ρ} (h : t.insert? r = some t') (k : κ) :
    t'.get? k = if key r = k then some r else t.get? k := by
  obtain ⟨hrows, hfresh⟩ := rows_insert h
  have hfind : t'.get? k = (t.get? k).or (if key r = k then some r else none) := by
    show t'.rows.find? _ = _
    rw [hrows, List.find?_append]
    refine congrArg _ ?_
    by_cases hk : key r = k <;> simp [hk]
  rw [hfind]
  split
  · rename_i hk
    rw [← hk, hfresh]
    rfl
  · cases t.get? k <;> rfl

/-- What was found before an insertion is found after it. -/
theorem get?_insert_of_some {t t' : Table ρ key} {r r' : ρ} {k : κ} (h : t.insert? r = some t')
    (hk : t.get? k = some r') : t'.get? k = some r' := by
  rw [get?_insert h]
  split
  · rename_i hr
    rw [← hr, (rows_insert h).2] at hk
    exact absurd hk (by simp)
  · exact hk

/-- **A lookup after an update finds the updated row.** -/
theorem get?_update (t : Table ρ key) (p : ρ → Bool) (f : ρ → ρ) (hf : ∀ r, key (f r) = key r)
    (k : κ) : (t.update p f hf).get? k = (t.get? k).map fun r => if p r then f r else r := by
  show (t.rows.map _).find? _ = _
  rw [List.find?_map]
  refine congrArg _ (congrArg (fun q => t.rows.find? q) ?_)
  funext r
  show decide (key (if p r then f r else r) = k) = _
  split
  · rw [hf r]
  · rfl

/-- The same, for a table known by its rows. -/
theorem get?_of_rows {t t' : Table ρ key} {p : ρ → Bool} {f : ρ → ρ}
    (h : t'.rows = t.rows.map fun r => if p r then f r else r) (k : κ)
    (hf : ∀ r, key (f r) = key r := by exact fun _ => rfl) :
    t'.get? k = (t.get? k).map fun r => if p r then f r else r := by
  have ht : t' = t.update p f hf := eq_of_rows h
  rw [ht, get?_update]

/-- An update that does not select a row leaves it. -/
theorem get?_update_of_not {t : Table ρ key} {p : ρ → Bool} {f : ρ → ρ}
    (hf : ∀ r, key (f r) = key r) {k : κ} (h : ∀ r, t.get? k = some r → p r = false) :
    (t.update p f hf).get? k = t.get? k := by
  rw [get?_update]
  cases hr : t.get? k with
  | none => rfl
  | some r => rw [Option.map_some, h r hr]; rfl

omit [DecidableEq κ] in
theorem rows_update (t : Table ρ key) (p : ρ → Bool) (f : ρ → ρ) (hf : ∀ r, key (f r) = key r) :
    (t.update p f hf).rows = t.rows.map fun r => if p r then f r else r := rfl

omit [DecidableEq κ] in
/-- A deletion leaves the selections it does not meet. -/
theorem filter_delete {t : Table ρ key} {p q : ρ → Bool} (h : ∀ r ∈ t.rows, q r = true → p r = false) :
    (t.delete p).rows.filter q = t.rows.filter q := by
  show (t.rows.filter _).filter q = _
  rw [List.filter_filter]
  refine List.filter_congr fun r hr => ?_
  cases hq : q r with
  | false => rfl
  | true => rw [h r hr hq]; rfl

end Table

end AI2Apps
