import Mathlib.Algebra.BigOperators.Group.List.Basic
import Mathlib.Data.List.Forall2
import Mathlib.Data.List.Nodup
import Mathlib.Data.List.Perm.Subperm

/-!
# Choices of one entry of each list

The choices are the product of the lists.  They are collected without repetition, some first and
then the others up to a cap.

* `product`: all choices, the last list fastest.
* `addNew`, `addUpTo`: collecting what is not there yet, without and with a cap.
* `mem_addUpTo`: a cap that the number of choices does not exceed leaves none out.
-/

namespace AI2Apps.Choices

variable {α β : Type}

/-- `itertools.product`. -/
def product : List (List α) → List (List α)
  | [] => [[]]
  | xs :: rest => xs.flatMap fun x => (product rest).map (x :: ·)

theorem mem_product : ∀ {lists : List (List α)} {v : List α},
    v ∈ product lists ↔ List.Forall₂ (fun x xs => x ∈ xs) v lists
  | [], v => by
    rw [product, List.mem_singleton, List.forall₂_nil_right_iff]
  | xs :: rest, v => by
    rw [product, List.mem_flatMap, List.forall₂_cons_right_iff]
    constructor
    · rintro ⟨x, hx, hv⟩
      obtain ⟨w, hw, rfl⟩ := List.mem_map.mp hv
      exact ⟨x, w, hx, mem_product.mp hw, rfl⟩
    · rintro ⟨x, w, hx, hw, rfl⟩
      exact ⟨x, hx, List.mem_map_of_mem (mem_product.mpr hw)⟩

theorem length_product : ∀ lists : List (List α), (product lists).length = (lists.map List.length).prod
  | [] => rfl
  | xs :: rest => by
    rw [product, List.length_flatMap, List.map_cons, List.prod_cons, ← length_product rest]
    rw [List.map_congr_left (g := fun _ => (product rest).length) fun x _ => List.length_map ..]
    rw [List.map_const', List.sum_replicate_nat]

/-- Where there is a choice, no list is empty. -/
theorem length_pos : ∀ {lists : List (List β)} {choice : List β},
    List.Forall₂ (fun x xs => x ∈ xs) choice lists → ∀ xs ∈ lists, 0 < xs.length
  | [], _, _, xs, hxs => absurd hxs List.not_mem_nil
  | ys :: rest, _, h, xs, hxs => by
    obtain ⟨x, choice, hx, hrest, rfl⟩ := List.forall₂_cons_right_iff.mp h
    rcases List.mem_cons.mp hxs with rfl | hxs
    · exact List.length_pos_of_mem hx
    · exact length_pos hrest xs hxs

/-- An entry of each list gives a choice of their places. -/
theorem exists_places : ∀ {lists : List (List β)} {choice : List β},
    List.Forall₂ (fun x xs => x ∈ xs) choice lists →
    ∃ v, v ∈ product (lists.map fun xs => List.range xs.length) ∧
      List.Forall₂ (fun i (x : List β × β) => x.1[i]? = some x.2) v (lists.zip choice)
  | [], _, h => by
    obtain rfl := List.forall₂_nil_right_iff.mp h
    exact ⟨[], List.mem_singleton.mpr rfl, List.Forall₂.nil⟩
  | xs :: rest, _, h => by
    obtain ⟨x, choice, hx, hrest, rfl⟩ := List.forall₂_cons_right_iff.mp h
    obtain ⟨v, hv, hplaces⟩ := exists_places hrest
    obtain ⟨i, hi, hx⟩ := List.getElem_of_mem hx
    refine ⟨i :: v, mem_product.mpr ?_, List.Forall₂.cons ?_ hplaces⟩
    · exact List.Forall₂.cons (List.mem_range.mpr hi) (mem_product.mp hv)
    · dsimp only
      rw [List.getElem?_eq_getElem hi, hx]

variable [DecidableEq α] {vectors rest : List α} {v w : α} {cap : ℕ}

/-- One is added if it is not there. -/
def add (vectors : List α) (v : α) : List α := if v ∈ vectors then vectors else vectors ++ [v]

/-- The ones that are not there are added. -/
def addNew : List α → List α → List α
  | vectors, [] => vectors
  | vectors, v :: rest => addNew (add vectors v) rest

/-- The ones that are not there are added while there are fewer than the cap. -/
def addUpTo (cap : ℕ) : List α → List α → List α
  | vectors, [] => vectors
  | vectors, v :: rest =>
    if cap ≤ vectors.length then vectors else addUpTo cap (add vectors v) rest

theorem nodup_add (h : vectors.Nodup) : (add vectors v).Nodup := by
  rw [add]
  split_ifs with hv
  · exact h
  · exact List.nodup_append.mpr ⟨h, List.nodup_singleton v, fun a ha b hb hab =>
      hv (List.mem_singleton.mp hb ▸ hab ▸ ha)⟩

theorem mem_add : w ∈ add vectors v ↔ w ∈ vectors ∨ w = v := by
  rw [add]
  split_ifs with hv
  · exact ⟨Or.inl, fun h => h.elim id fun h => h ▸ hv⟩
  · rw [List.mem_append, List.mem_singleton]

theorem nodup_addNew : ∀ {rest vectors : List α}, vectors.Nodup → (addNew vectors rest).Nodup
  | [], _, h => h
  | _ :: rest, _, h => by
    rw [addNew]
    exact nodup_addNew (nodup_add h)

theorem mem_addNew : ∀ {rest vectors : List α}, w ∈ addNew vectors rest ↔ w ∈ vectors ∨ w ∈ rest
  | [], vectors => by simp [addNew]
  | v :: rest, vectors => by
    rw [addNew, mem_addNew, mem_add, List.mem_cons, or_assoc]

theorem nodup_addUpTo : ∀ {rest vectors : List α}, vectors.Nodup → (addUpTo cap vectors rest).Nodup
  | [], _, h => h
  | _ :: _, vectors, h => by
    rw [addUpTo]
    split_ifs
    · exact h
    · exact nodup_addUpTo (nodup_add h)

theorem mem_of_mem_addUpTo :
    ∀ {rest vectors : List α}, w ∈ addUpTo cap vectors rest → w ∈ vectors ∨ w ∈ rest
  | [], _, h => Or.inl h
  | v :: rest, vectors, h => by
    rw [addUpTo] at h
    split_ifs at h
    · exact Or.inl h
    · rcases mem_of_mem_addUpTo h with h | h
      · rcases mem_add.mp h with h | rfl
        · exact Or.inl h
        · exact Or.inr (List.mem_cons_self ..)
      · exact Or.inr (List.mem_cons_of_mem _ h)

/-- Either all are there or the cap is reached. -/
theorem addUpTo_full : ∀ {rest vectors : List α},
    cap ≤ (addUpTo cap vectors rest).length ∨ ∀ w, w ∈ vectors ∨ w ∈ rest → w ∈ addUpTo cap vectors rest
  | [], _ => Or.inr fun _ h => h.elim id fun h => absurd h List.not_mem_nil
  | v :: rest, vectors => by
    rw [addUpTo]
    split_ifs with hcap
    · exact Or.inl hcap
    · refine (@addUpTo_full rest (add vectors v)).imp_right fun h w hw => h w ?_
      rw [mem_add]
      rcases hw with hw | hw
      · exact Or.inl (Or.inl hw)
      · exact (List.mem_cons.mp hw).elim (fun hw => Or.inl (Or.inr hw)) Or.inr

/-- **A cap that the number of choices does not exceed leaves none out.** -/
theorem mem_addUpTo (hnodup : vectors.Nodup) (hsub : ∀ w ∈ vectors, w ∈ rest) (hcap : rest.length ≤ cap)
    (hw : w ∈ rest) : w ∈ (addUpTo cap vectors rest).take cap := by
  have hsubset : addUpTo cap vectors rest ⊆ rest := fun u hu =>
    (mem_of_mem_addUpTo hu).elim (hsub u) id
  have hsubperm : (addUpTo cap vectors rest).Subperm rest := (nodup_addUpTo hnodup).subperm hsubset
  have hlen := hsubperm.length_le
  rw [List.take_of_length_le (by omega)]
  rcases @addUpTo_full α _ cap rest vectors with hfull | hall
  · -- As many different choices as there are.
    exact (hsubperm.perm_of_length_le (by omega)).mem_iff.mpr hw
  · exact hall w (Or.inr hw)

end AI2Apps.Choices
