import AI2Apps.Extensions.Patching
import AI2Apps.Lib.JsonRoundTrip

/-!
# Canonical text

The context engine and the session memory write every message with its keys in order.  A
value that was written so and read again has its keys in order, and is written the same: the
text of a message names the message.

* `canonical`: the text with the keys in order.
* `sortKeys_idem`: keys are in order once they were put in order.
* `loads_canonical`: what is read back.
* `lookup_sortMembers`: the members under their keys, before and after.
-/

namespace AI2Apps.Context

open Extensions (sortKeys sortItems sortMembers)
open Json (plain plainItems plainMembers keys lookup)

/-- `json.dumps(value, ensure_ascii=False, sort_keys=True, separators=(",", ":"))`. -/
def canonical (floats : FloatText) (value : Json) : Str := JsonText.dumps floats (sortKeys value)

/-- Members in the order of their keys. -/
def inOrder (members : Json.Object) : Json.Object := members.insertionSort fun a b => a.1 ≤ b.1

/-! ## Members -/

theorem perm_inOrder (members : Json.Object) : (inOrder members).Perm members :=
  List.perm_insertionSort _ members

theorem mem_inOrder {members : Json.Object} {p : Str × Json} :
    p ∈ inOrder members ↔ p ∈ members :=
  (perm_inOrder members).mem_iff

theorem sortMembers_eq_map (members : Json.Object) :
    sortMembers members = members.map fun p => (p.1, sortKeys p.2) := by
  induction members with
  | nil => rw [sortMembers, List.map_nil]
  | cons p members ih => rw [sortMembers, ih, List.map_cons]

theorem sortItems_eq_map (items : List Json) : sortItems items = items.map sortKeys := by
  induction items with
  | nil => rw [sortItems, List.map_nil]
  | cons v items ih => rw [sortItems, ih, List.map_cons]

theorem keys_sortMembers (members : Json.Object) : keys (sortMembers members) = keys members := by
  rw [sortMembers_eq_map, keys, List.map_map]
  rfl

/-- The keys are not touched, so their order may be made before or after. -/
theorem sortMembers_inOrder (members : Json.Object) :
    sortMembers (inOrder members) = inOrder (sortMembers members) := by
  rw [sortMembers_eq_map, sortMembers_eq_map, inOrder, inOrder]
  exact List.map_insertionSort (fun a b : Str × Json => a.1 ≤ b.1) (fun a b => a.1 ≤ b.1)
    (fun p : Str × Json => (p.1, sortKeys p.2)) members fun _ _ _ _ => Iff.rfl

theorem inOrder_idem (members : Json.Object) : inOrder (inOrder members) = inOrder members :=
  (List.pairwise_insertionSort (fun a b : Str × Json => a.1 ≤ b.1) members).insertionSort_eq

theorem sortKeys_obj (members : Json.Object) :
    sortKeys (.obj members) = .obj (inOrder (sortMembers members)) := by
  rw [sortKeys, inOrder]

mutual

/-- **Keys in order stay so.** -/
theorem sortKeys_idem : ∀ v : Json, sortKeys (sortKeys v) = sortKeys v
  | .null => rfl
  | .bool _ => rfl
  | .int _ => rfl
  | .float _ => rfl
  | .str _ => rfl
  | .arr items => by rw [sortKeys, sortKeys, sortItems_idem items]
  | .obj members => by
    rw [sortKeys_obj, sortKeys_obj, sortMembers_inOrder, inOrder_idem, sortMembers_idem members]

theorem sortItems_idem : ∀ items : List Json, sortItems (sortItems items) = sortItems items
  | [] => rfl
  | v :: items => by rw [sortItems, sortItems, sortKeys_idem v, sortItems_idem items]

theorem sortMembers_idem : ∀ members : Json.Object,
    sortMembers (sortMembers members) = sortMembers members
  | [] => rfl
  | (k, v) :: members => by rw [sortMembers, sortMembers, sortKeys_idem v, sortMembers_idem members]

end

/-! ## Plain values -/

theorem plainMembers_iff {members : Json.Object} :
    plainMembers members = true ↔ (keys members).Nodup ∧ ∀ p ∈ members, p.2.plain = true := by
  induction members with
  | nil => exact ⟨fun _ => ⟨List.nodup_nil, fun p hp => absurd hp List.not_mem_nil⟩, fun _ => rfl⟩
  | cons p members ih =>
    rw [plainMembers, Bool.and_eq_true, Bool.and_eq_true, decide_eq_true_eq, ih, keys, keys,
      List.map_cons, List.nodup_cons, List.forall_mem_cons]
    exact and_and_and_comm

theorem plainItems_iff {items : List Json} :
    plainItems items = true ↔ ∀ v ∈ items, v.plain = true := by
  induction items with
  | nil => exact ⟨fun _ v hv => absurd hv List.not_mem_nil, fun _ => rfl⟩
  | cons v items ih => rw [plainItems, Bool.and_eq_true, ih, List.forall_mem_cons]

theorem plainMembers_inOrder {members : Json.Object} :
    plainMembers (inOrder members) = plainMembers members := by
  rw [Bool.eq_iff_iff, plainMembers_iff, plainMembers_iff]
  refine and_congr ?_ ⟨fun h p hp => h p (mem_inOrder.mpr hp), fun h p hp => h p (mem_inOrder.mp hp)⟩
  exact ((perm_inOrder members).map Prod.fst).nodup_iff

mutual

theorem plain_sortKeys : ∀ v : Json, (sortKeys v).plain = v.plain
  | .null => rfl
  | .bool _ => rfl
  | .int _ => rfl
  | .float _ => rfl
  | .str _ => rfl
  | .arr items => by rw [sortKeys, plain, plain, plainItems_sortItems items]
  | .obj members => by
    rw [sortKeys_obj, plain, plain, plainMembers_inOrder, plainMembers_sortMembers members]

theorem plainItems_sortItems : ∀ items : List Json, plainItems (sortItems items) = plainItems items
  | [] => rfl
  | v :: items => by
    rw [sortItems, plainItems, plainItems, plain_sortKeys v, plainItems_sortItems items]

theorem plainMembers_sortMembers : ∀ members : Json.Object,
    plainMembers (sortMembers members) = plainMembers members
  | [] => rfl
  | (k, v) :: members => by
    rw [sortMembers, plainMembers, plainMembers, keys_sortMembers, plain_sortKeys v,
      plainMembers_sortMembers members]

end

/-- **Canonical text is read back** with the keys in order. -/
theorem loads_canonical (floats : FloatText) {v : Json} (h : v.plain = true) :
    JsonText.loads floats (canonical floats v) = some (sortKeys v) :=
  JsonText.loads_dumps floats ((plain_sortKeys v).trans h)

/-- Among the members of a plain object the order does not matter. -/
theorem lookup_inOrder {members : Json.Object} (h : (keys members).Nodup) (k : Str) :
    lookup k (inOrder members) = lookup k members := by
  have hnodup : (keys (inOrder members)).Nodup :=
    ((perm_inOrder members).map Prod.fst).nodup_iff.mpr h
  cases hlookup : lookup k members with
  | some v => exact Json.lookup_of_mem hnodup (mem_inOrder.mpr (Json.mem_of_lookup hlookup))
  | none =>
    rw [Json.lookup_eq_none_iff] at hlookup ⊢
    exact mt (((perm_inOrder members).map Prod.fst).mem_iff).mp hlookup

theorem lookup_sortMembers (members : Json.Object) (k : Str) :
    lookup k (sortMembers members) = (lookup k members).map sortKeys := by
  induction members with
  | nil => rw [sortMembers, lookup, Option.map_none]
  | cons p members ih =>
    rw [sortMembers, lookup, lookup]
    split_ifs
    · rw [Option.map_some]
    · exact ih

/-! ## Objects that are read -/

theorem keys_setMember (k : Str) (v : Json) (o : Json.Object) :
    Json.keys (JsonText.setMember k v o) =
      if k ∈ Json.keys o then Json.keys o else Json.keys o ++ [k] := by
  induction o with
  | nil => rfl
  | cons p o ih =>
    obtain ⟨k', w⟩ := p
    rw [JsonText.setMember]
    split_ifs with hk hmem hmem
    · rw [hk]
      rfl
    · exact absurd (hk ▸ List.mem_cons_self) hmem
    · have hmem' : k ∈ Json.keys o := List.mem_of_ne_of_mem (Ne.symm hk) hmem
      rw [if_pos hmem'] at ih
      exact congrArg (k' :: ·) ih
    · have hmem' : k ∉ Json.keys o := fun h => hmem (List.mem_cons_of_mem _ h)
      rw [if_neg hmem'] at ih
      exact congrArg (k' :: ·) ih

theorem mem_setMember {k : Str} {v : Json} {o : Json.Object} {p : Str × Json}
    (h : p ∈ JsonText.setMember k v o) : p = (k, v) ∨ p ∈ o := by
  induction o with
  | nil => exact .inl (List.mem_singleton.mp h)
  | cons q o ih =>
    obtain ⟨k', w⟩ := q
    rw [JsonText.setMember] at h
    split_ifs at h
    · exact (List.mem_cons.mp h).imp id (List.mem_cons_of_mem _)
    · rcases List.mem_cons.mp h with rfl | h
      · exact .inr List.mem_cons_self
      · exact (ih h).imp id (List.mem_cons_of_mem _)

theorem plain_setMember {k : Str} {v : Json} {o : Json.Object} (ho : (Json.obj o).plain = true)
    (hv : v.plain = true) : (Json.obj (JsonText.setMember k v o)).plain = true := by
  rw [Json.plain, plainMembers_iff] at ho ⊢
  refine ⟨?_, fun p hp => ?_⟩
  · rw [keys_setMember]
    split_ifs with hk
    · exact ho.1
    · exact List.nodup_append_comm.mp (List.nodup_cons.mpr ⟨hk, ho.1⟩)
  · rcases mem_setMember hp with rfl | hp
    · exact hv
    · exact ho.2 p hp

theorem nodup_ofPairs (pairs : List (Str × Json)) : (keys (JsonText.ofPairs pairs)).Nodup := by
  have hstep : ∀ o : Json.Object, (keys o).Nodup →
      (keys (pairs.foldl (fun o p => JsonText.setMember p.1 p.2 o) o)).Nodup := by
    induction pairs with
    | nil => exact fun o ho => ho
    | cons p pairs ih =>
      intro o ho
      refine ih _ ?_
      rw [keys_setMember]
      split_ifs with hk
      · exact ho
      · exact List.nodup_append_comm.mp (List.nodup_cons.mpr ⟨hk, ho⟩)
  exact hstep [] List.nodup_nil

theorem obj?_of_literal {s r : Str} {v : Json} (h : JsonText.literal? s = some (v, r)) :
    v.obj? = none := by
  have htake : ∀ {name : Str} {w : Json}, (if name.isPrefixOf s then
      some (w, s.drop name.length) else none) = some (v, r) → v = w := by
    intro name w hw
    split_ifs at hw
    exact (Prod.mk.inj (Option.some.inj hw)).1.symm
  simp only [JsonText.literal?, Option.orElse_eq_orElse, Option.orElse_eq_or, Option.or_eq_some_iff] at h
  rcases h with h | ⟨-, h | ⟨-, h | ⟨-, h | ⟨-, h | ⟨-, h⟩⟩⟩⟩⟩
  all_goals
    obtain rfl := htake h
    rfl

theorem obj?_of_scanNumber {floats : FloatText} {s r : Str} {v : Json}
    (h : JsonText.scanNumber floats s = some (v, r)) : v.obj? = none := by
  unfold JsonText.scanNumber at h
  obtain ⟨⟨digits, r'⟩, -, h⟩ := Option.bind_eq_some_iff.mp h
  dsimp only at h
  split_ifs at h
  all_goals
    obtain ⟨rfl, -⟩ := Prod.mk.inj (Option.some.inj h)
    rfl

/-- No key comes twice in an object that is read. -/
theorem nodup_of_loads {floats : FloatText} {text : Str} {o : Json.Object}
    (h : JsonText.loads floats text = some (.obj o)) : (keys o).Nodup := by
  have hscan : ∀ (fuel : ℕ) (s r : Str), JsonText.scanValue floats fuel s = some (.obj o, r) →
      (keys o).Nodup := by
    intro fuel s r hs
    unfold JsonText.scanValue at hs
    split at hs
    · cases hs
    · cases hs
    · split_ifs at hs
      · obtain ⟨p, -, hp⟩ := Option.map_eq_some_iff.mp hs
        cases hp
      · split at hs
        · cases hs
          exact List.nodup_nil
        · obtain ⟨p, -, hp⟩ := Option.map_eq_some_iff.mp hs
          cases hp
          exact nodup_ofPairs p.1
      · split at hs
        · cases hs
        · obtain ⟨p, -, hp⟩ := Option.map_eq_some_iff.mp hs
          cases hp
      · simp only [Option.orElse_eq_orElse, Option.orElse_eq_or, Option.or_eq_some_iff] at hs
        rcases hs with hs | ⟨-, hs⟩
        · cases obj?_of_literal hs
        · cases obj?_of_scanNumber hs
  unfold JsonText.loads at h
  split_ifs at h
  split at h
  · cases h
  · rename_i v r hs
    split_ifs at h
    cases h
    exact hscan _ _ _ hs
end AI2Apps.Context
