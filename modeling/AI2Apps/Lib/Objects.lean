import AI2Apps.Lib.Faults
import AI2Apps.Lib.Json

/-!
# Values with an identity

A list or a dict of the modelled language is an object: two names may stand for one,
and a write through one name is seen through the other.  A `Value` is a JSON value
whose containers carry the address of their object; a `Heap` remembers which
addresses are taken and which have been written to.

A program *reads* when it writes to nothing; what it makes has fresh addresses.  The
rules below follow the constructs of a program, so that a claim about what a whole
evaluator shares with its input becomes one induction over its syntax.

* `Value.json`, `Value.Below`: the data of a value, and a bound on its addresses.
* `alloc`, `deepcopy`, `setItem`: a new object, a copy, a write.
* `Reads`: what a program without writes keeps; one rule for each construct.
* `Confined`: the same for a program that writes to objects it has made.
-/

namespace AI2Apps.Objects

open Faults

inductive Value where
  | null
  | bool (b : Bool)
  | int (i : ℤ)
  | float (f : FloatVal)
  | str (s : Str)
  | list (addr : ℕ) (items : List Value)
  | dict (addr : ℕ) (members : List (Str × Value))

namespace Value

mutual

/-- The data of a value. -/
def json : Value → Json
  | .null => .null
  | .bool b => .bool b
  | .int i => .int i
  | .float f => .float f
  | .str s => .str s
  | .list _ items => .arr (jsonItems items)
  | .dict _ members => .obj (jsonMembers members)

def jsonItems : List Value → List Json
  | [] => []
  | v :: items => v.json :: jsonItems items

def jsonMembers : List (Str × Value) → Json.Object
  | [] => []
  | (k, v) :: members => (k, v.json) :: jsonMembers members

end

mutual

/-- The objects a value is made of, all of them at addresses below the bound. -/
def Below (n : ℕ) : Value → Prop
  | .list addr items => addr < n ∧ ItemsBelow n items
  | .dict addr members => addr < n ∧ MembersBelow n members
  | _ => True

def ItemsBelow (n : ℕ) : List Value → Prop
  | [] => True
  | v :: items => v.Below n ∧ ItemsBelow n items

def MembersBelow (n : ℕ) : List (Str × Value) → Prop
  | [] => True
  | (_, v) :: members => v.Below n ∧ MembersBelow n members

end

mutual

/-- The objects a value is made of, none of them at an address below the bound. -/
def Fresh (n : ℕ) : Value → Prop
  | .list addr items => n ≤ addr ∧ ItemsFresh n items
  | .dict addr members => n ≤ addr ∧ MembersFresh n members
  | _ => True

def ItemsFresh (n : ℕ) : List Value → Prop
  | [] => True
  | v :: items => v.Fresh n ∧ ItemsFresh n items

def MembersFresh (n : ℕ) : List (Str × Value) → Prop
  | [] => True
  | (_, v) :: members => v.Fresh n ∧ MembersFresh n members

end

mutual

/-- The value at other addresses; what was one object stays one. -/
def shift (n : ℕ) : Value → Value
  | .list addr items => .list (n + addr) (shiftItems n items)
  | .dict addr members => .dict (n + addr) (shiftMembers n members)
  | v => v

def shiftItems (n : ℕ) : List Value → List Value
  | [] => []
  | v :: items => v.shift n :: shiftItems n items

def shiftMembers (n : ℕ) : List (Str × Value) → List (Str × Value)
  | [] => []
  | (k, v) :: members => (k, v.shift n) :: shiftMembers n members

end

/-! ## Copies have the same data -/

mutual

theorem json_shift (n : ℕ) : ∀ v : Value, (v.shift n).json = v.json
  | .null | .bool _ | .int _ | .float _ | .str _ => rfl
  | .list _ items => congrArg Json.arr (jsonItems_shift n items)
  | .dict _ members => congrArg Json.obj (jsonMembers_shift n members)

theorem jsonItems_shift (n : ℕ) : ∀ items, jsonItems (shiftItems n items) = jsonItems items
  | [] => rfl
  | v :: items => congrArg₂ List.cons (json_shift n v) (jsonItems_shift n items)

theorem jsonMembers_shift (n : ℕ) :
    ∀ members, jsonMembers (shiftMembers n members) = jsonMembers members
  | [] => rfl
  | (k, v) :: members => congrArg₂ List.cons (congrArg (k, ·) (json_shift n v))
      (jsonMembers_shift n members)

end

mutual

theorem fresh_shift (n : ℕ) : ∀ v : Value, (v.shift n).Fresh n
  | .null | .bool _ | .int _ | .float _ | .str _ => trivial
  | .list addr items => ⟨Nat.le_add_right n addr, itemsFresh_shift n items⟩
  | .dict addr members => ⟨Nat.le_add_right n addr, membersFresh_shift n members⟩

theorem itemsFresh_shift (n : ℕ) : ∀ items, ItemsFresh n (shiftItems n items)
  | [] => trivial
  | v :: items => ⟨fresh_shift n v, itemsFresh_shift n items⟩

theorem membersFresh_shift (n : ℕ) : ∀ members, MembersFresh n (shiftMembers n members)
  | [] => trivial
  | (_, v) :: members => ⟨fresh_shift n v, membersFresh_shift n members⟩

end

mutual

theorem below_shift {m : ℕ} (n : ℕ) : ∀ {v : Value}, v.Below m → (v.shift n).Below (n + m)
  | .null, _ | .bool _, _ | .int _, _ | .float _, _ | .str _, _ => trivial
  | .list _ _, h => ⟨Nat.add_lt_add_left h.1 n, itemsBelow_shift n h.2⟩
  | .dict _ _, h => ⟨Nat.add_lt_add_left h.1 n, membersBelow_shift n h.2⟩

theorem itemsBelow_shift {m : ℕ} (n : ℕ) :
    ∀ {items}, ItemsBelow m items → ItemsBelow (n + m) (shiftItems n items)
  | [], _ => trivial
  | _ :: _, h => ⟨below_shift n h.1, itemsBelow_shift n h.2⟩

theorem membersBelow_shift {m : ℕ} (n : ℕ) :
    ∀ {members}, MembersBelow m members → MembersBelow (n + m) (shiftMembers n members)
  | [], _ => trivial
  | _ :: _, h => ⟨below_shift n h.1, membersBelow_shift n h.2⟩

end

mutual

theorem Below.mono {m n : ℕ} (hmn : m ≤ n) : ∀ {v : Value}, v.Below m → v.Below n
  | .null, _ | .bool _, _ | .int _, _ | .float _, _ | .str _, _ => trivial
  | .list _ _, h => ⟨Nat.lt_of_lt_of_le h.1 hmn, ItemsBelow.mono hmn h.2⟩
  | .dict _ _, h => ⟨Nat.lt_of_lt_of_le h.1 hmn, MembersBelow.mono hmn h.2⟩

theorem ItemsBelow.mono {m n : ℕ} (hmn : m ≤ n) : ∀ {items}, ItemsBelow m items → ItemsBelow n items
  | [], _ => trivial
  | _ :: _, h => ⟨Below.mono hmn h.1, ItemsBelow.mono hmn h.2⟩

theorem MembersBelow.mono {m n : ℕ} (hmn : m ≤ n) :
    ∀ {members}, MembersBelow m members → MembersBelow n members
  | [], _ => trivial
  | _ :: _, h => ⟨Below.mono hmn h.1, MembersBelow.mono hmn h.2⟩

end

mutual

theorem Fresh.mono {m n : ℕ} (hmn : m ≤ n) : ∀ {v : Value}, v.Fresh n → v.Fresh m
  | .null, _ | .bool _, _ | .int _, _ | .float _, _ | .str _, _ => trivial
  | .list _ _, h => ⟨Nat.le_trans hmn h.1, ItemsFresh.mono hmn h.2⟩
  | .dict _ _, h => ⟨Nat.le_trans hmn h.1, MembersFresh.mono hmn h.2⟩

theorem ItemsFresh.mono {m n : ℕ} (hmn : m ≤ n) : ∀ {items}, ItemsFresh n items → ItemsFresh m items
  | [], _ => trivial
  | _ :: _, h => ⟨Fresh.mono hmn h.1, ItemsFresh.mono hmn h.2⟩

theorem MembersFresh.mono {m n : ℕ} (hmn : m ≤ n) :
    ∀ {members}, MembersFresh n members → MembersFresh m members
  | [], _ => trivial
  | _ :: _, h => ⟨Fresh.mono hmn h.1, MembersFresh.mono hmn h.2⟩

end

mutual

/-- Finitely many objects are below some address. -/
theorem exists_below : ∀ v : Value, ∃ n, v.Below n
  | .null | .bool _ | .int _ | .float _ | .str _ => ⟨0, trivial⟩
  | .list addr items => by
    obtain ⟨n, hn⟩ := exists_itemsBelow items
    exact ⟨n + (addr + 1), by omega, hn.mono (Nat.le_add_right _ _)⟩
  | .dict addr members => by
    obtain ⟨n, hn⟩ := exists_membersBelow members
    exact ⟨n + (addr + 1), by omega, hn.mono (Nat.le_add_right _ _)⟩

theorem exists_itemsBelow : ∀ items, ∃ n, ItemsBelow n items
  | [] => ⟨0, trivial⟩
  | v :: items => by
    obtain ⟨n, hn⟩ := exists_below v
    obtain ⟨m, hm⟩ := exists_itemsBelow items
    exact ⟨n + m, hn.mono (Nat.le_add_right _ _), hm.mono (Nat.le_add_left _ _)⟩

theorem exists_membersBelow : ∀ members, ∃ n, MembersBelow n members
  | [] => ⟨0, trivial⟩
  | (_, v) :: members => by
    obtain ⟨n, hn⟩ := exists_below v
    obtain ⟨m, hm⟩ := exists_membersBelow members
    exact ⟨n + m, hn.mono (Nat.le_add_right _ _), hm.mono (Nat.le_add_left _ _)⟩

end

theorem ItemsBelow.append {n : ℕ} {items items' : List Value} (h : ItemsBelow n items)
    (h' : ItemsBelow n items') : ItemsBelow n (items ++ items') := by
  induction items with
  | nil => exact h'
  | cons v items ih => exact ⟨h.1, ih h.2⟩

theorem ItemsBelow.get {n : ℕ} {items : List Value} {v : Value} (h : ItemsBelow n items)
    (hv : v ∈ items) : v.Below n := by
  induction items with
  | nil => exact nomatch hv
  | cons w items ih =>
    rcases List.mem_cons.mp hv with rfl | hv
    · exact h.1
    · exact ih h.2 hv

/-! ## Members -/

/-- `value.get(key)`. -/
def lookup (key : Str) : List (Str × Value) → Option Value
  | [] => none
  | (k, v) :: members => if k = key then some v else lookup key members

/-- `value[key] = v`: at the key's place, or at the end. -/
def setMember (key : Str) (v : Value) : List (Str × Value) → List (Str × Value)
  | [] => [(key, v)]
  | (k, w) :: members => if k = key then (k, v) :: members else (k, w) :: setMember key v members

theorem lookup_json (key : Str) (members : List (Str × Value)) :
    Json.lookup key (jsonMembers members) = (lookup key members).map json := by
  induction members with
  | nil => rfl
  | cons member members ih =>
    obtain ⟨k, v⟩ := member
    rw [jsonMembers, Json.lookup, lookup, ih]
    split <;> rfl

theorem lookup_setMember (key k : Str) (v : Value) (members : List (Str × Value)) :
    lookup k (setMember key v members) = if key = k then some v else lookup k members := by
  induction members with
  | nil => rfl
  | cons member members ih =>
    obtain ⟨k', w⟩ := member
    unfold setMember
    by_cases hkey : k' = key
    · subst hkey
      rw [if_pos rfl, lookup, lookup]
      split_ifs <;> rfl
    · rw [if_neg hkey, lookup, lookup, ih]
      split_ifs with h h' h'
      · exact absurd (h.trans h'.symm) hkey
      · rfl
      · rfl
      · rfl

theorem MembersBelow.lookup {n : ℕ} {key : Str} {v : Value} {members : List (Str × Value)}
    (h : MembersBelow n members) (hv : Value.lookup key members = some v) : v.Below n := by
  induction members with
  | nil => exact nomatch hv
  | cons member members ih =>
    obtain ⟨k, w⟩ := member
    rw [Value.lookup] at hv
    split at hv
    · obtain rfl := Option.some.inj hv
      exact h.1
    · exact ih h.2 hv

theorem MembersBelow.setMember {n : ℕ} {key : Str} {v : Value} {members : List (Str × Value)}
    (h : MembersBelow n members) (hv : v.Below n) : MembersBelow n (Value.setMember key v members) := by
  induction members with
  | nil => exact ⟨hv, trivial⟩
  | cons member members ih =>
    obtain ⟨k, w⟩ := member
    unfold Value.setMember
    split
    · exact ⟨hv, h.2⟩
    · exact ⟨h.1, ih h.2⟩

end Value

/-! ## The heap -/

/-- The addresses that are taken are those below `next`. -/
structure Heap where
  next : ℕ
  written : List ℕ

variable {ε α β : Type}

/-- The address of a new object. -/
def alloc : EStateM ε Heap ℕ := do
  let h ← get
  set { h with next := h.next + 1 }
  return h.next

/-- `copy.deepcopy`: every object is copied once. -/
def deepcopy (v : Value) : EStateM ε Heap Value := do
  let h ← get
  set { h with next := h.next + h.next }
  return v.shift h.next

/-- `d[key] = v`, a write to the dict's object; any other value refuses it. -/
def setItem (e : ε) (d : Value) (key : Str) (v : Value) : EStateM ε Heap Value :=
  match d with
  | .dict addr members => do
    modify fun h => { h with written := addr :: h.written }
    return .dict addr (Value.setMember key v members)
  | _ => throw e

/-! ## Programs that only read -/

/-- Started with the addresses below `n` taken, the program writes to nothing, frees
nothing, returns what `P` says of a value and the next address, and raises only what is
`expected`. -/
def Reads (expected : ε → Prop) (n : ℕ) (P : α → ℕ → Prop) (x : EStateM ε Heap α) : Prop :=
  ∀ h : Heap, n ≤ h.next →
    wp x (fun a h' => h.next ≤ h'.next ∧ h'.written = h.written ∧ P a h'.next)
      (fun e h' => h.next ≤ h'.next ∧ h'.written = h.written ∧ expected e) h

namespace Reads

variable {expected : ε → Prop} {n m : ℕ} {P : α → ℕ → Prop} {Q : β → ℕ → Prop}
  {x : EStateM ε Heap α}

theorem mono_start (h : Reads expected n P x) (hnm : n ≤ m) : Reads expected m P x :=
  fun heap hm => h heap (Nat.le_trans hnm hm)

theorem mono {P' : α → ℕ → Prop} (h : Reads expected n P x) (hP : ∀ a k, n ≤ k → P a k → P' a k) :
    Reads expected n P' x := fun heap hn =>
  wp_mono (h heap hn) (fun _ _ hs => ⟨hs.1, hs.2.1, hP _ _ (Nat.le_trans hn hs.1) hs.2.2⟩)
    fun _ _ hs => hs

theorem pure {a : α} (h : ∀ k, n ≤ k → P a k) : Reads expected n P (pure a : EStateM ε Heap α) :=
  fun _ hn => ⟨Nat.le_refl _, rfl, h _ hn⟩

theorem throw {e : ε} (h : expected e) : Reads expected n P (throw e : EStateM ε Heap α) :=
  fun _ _ => ⟨Nat.le_refl _, rfl, h⟩

/-- What follows starts where at least as many addresses are taken. -/
theorem bind {f : α → EStateM ε Heap β} (hx : Reads expected n P x)
    (hf : ∀ a k, n ≤ k → P a k → Reads expected k Q (f a)) : Reads expected n Q (x >>= f) := by
  intro h hn
  rw [wp_bind]
  refine wp_mono (hx h hn) (fun a s hs => ?_) fun _ _ hs => hs
  obtain ⟨hle, hwritten, hP⟩ := hs
  refine wp_mono (hf a s.next (Nat.le_trans hn hle) hP s (Nat.le_refl _)) (fun _ t ht => ?_)
    fun _ t ht => ?_
  · exact ⟨Nat.le_trans hle ht.1, ht.2.1.trans hwritten, ht.2.2⟩
  · exact ⟨Nat.le_trans hle ht.1, ht.2.1.trans hwritten, ht.2.2⟩

theorem ite {c : Prop} [Decidable c] {y : EStateM ε Heap α} (hx : c → Reads expected n P x)
    (hy : ¬ c → Reads expected n P y) : Reads expected n P (if c then x else y) := by
  split_ifs with h
  · exact hx h
  · exact hy h

/-- A new object is at an address that was not taken. -/
theorem alloc : Reads expected n (fun a k => n ≤ a ∧ a < k) (alloc : EStateM ε Heap ℕ) :=
  fun _ hn => ⟨Nat.le_succ _, rfl, hn, Nat.lt_succ_self _⟩

/-- **A copy shares nothing** with what was there before. -/
theorem deepcopy {v : Value} (hv : v.Below n) :
    Reads expected n (fun w k => w.Fresh n ∧ w.Below k ∧ w.json = v.json)
      (deepcopy v : EStateM ε Heap Value) := by
  intro h hn
  refine ⟨Nat.le_add_right _ _, rfl, ?_, ?_, Value.json_shift _ _⟩
  · exact Value.Fresh.mono hn (Value.fresh_shift h.next v)
  · exact Value.below_shift h.next (hv.mono hn)

/-- A handler that raises again keeps what was expected, under its new name. -/
theorem rethrow {expected' : ε → Prop} {f : ε → ε} (h : Reads expected n P x)
    (hf : ∀ e, expected e → expected' (f e)) :
    Reads expected' n P (tryCatch x fun e => MonadExcept.throw (f e)) := by
  intro heap hn
  rw [wp_tryCatch]
  exact wp_mono (h heap hn) (fun _ _ hs => hs) fun e _ hs => ⟨hs.1, hs.2.1, hf e hs.2.2⟩

end Reads

/-! ## Programs that write to their own objects -/

/-- As `Reads`, but the program may write to objects at or above `base`. -/
def Confined (base : ℕ) (expected : ε → Prop) (n : ℕ) (P : α → ℕ → Prop)
    (x : EStateM ε Heap α) : Prop :=
  ∀ h : Heap, n ≤ h.next →
    wp x (fun a h' => h.next ≤ h'.next ∧ (∀ c ∈ h'.written, c ∈ h.written ∨ base ≤ c) ∧ P a h'.next)
      (fun e h' => h.next ≤ h'.next ∧ (∀ c ∈ h'.written, c ∈ h.written ∨ base ≤ c) ∧ expected e) h

theorem Reads.confined {expected : ε → Prop} {n : ℕ} {P : α → ℕ → Prop} {x : EStateM ε Heap α}
    (h : Reads expected n P x) (base : ℕ) : Confined base expected n P x := by
  intro heap hn
  refine wp_mono (h heap hn) (fun _ s hs => ?_) fun _ s hs => ?_
  · exact ⟨hs.1, fun c hc => .inl (hs.2.1 ▸ hc), hs.2.2⟩
  · exact ⟨hs.1, fun c hc => .inl (hs.2.1 ▸ hc), hs.2.2⟩

namespace Confined

variable {base : ℕ} {expected expected' : ε → Prop} {n m : ℕ} {P : α → ℕ → Prop}
  {Q : β → ℕ → Prop} {x : EStateM ε Heap α}

theorem pure {a : α} (h : ∀ k, n ≤ k → P a k) :
    Confined base expected n P (pure a : EStateM ε Heap α) :=
  Reads.confined (Reads.pure h) base

theorem throw {e : ε} (h : expected e) :
    Confined base expected n P (throw e : EStateM ε Heap α) :=
  (Reads.throw (P := P) h).confined base

/-- A program that runs on a later heap. -/
theorem after {y : EStateM ε Heap β} {k : ℕ} {h s : Heap} (hy : Confined base expected k Q y)
    (hle : h.next ≤ s.next) (hwritten : ∀ c ∈ s.written, c ∈ h.written ∨ base ≤ c) (hk : k ≤ s.next) :
    wp y (fun b t => h.next ≤ t.next ∧ (∀ c ∈ t.written, c ∈ h.written ∨ base ≤ c) ∧ Q b t.next)
      (fun e t => h.next ≤ t.next ∧ (∀ c ∈ t.written, c ∈ h.written ∨ base ≤ c) ∧ expected e) s := by
  have hkept : ∀ t : Heap, (∀ c ∈ t.written, c ∈ s.written ∨ base ≤ c) →
      ∀ c ∈ t.written, c ∈ h.written ∨ base ≤ c := fun t ht c hc => (ht c hc).elim (hwritten c) .inr
  exact wp_mono (hy s hk) (fun _ t ht => ⟨Nat.le_trans hle ht.1, hkept t ht.2.1, ht.2.2⟩)
    fun _ t ht => ⟨Nat.le_trans hle ht.1, hkept t ht.2.1, ht.2.2⟩

theorem bind {f : α → EStateM ε Heap β} (hx : Confined base expected n P x)
    (hf : ∀ a k, n ≤ k → P a k → Confined base expected k Q (f a)) :
    Confined base expected n Q (x >>= f) := by
  intro h hn
  rw [wp_bind]
  refine wp_mono (hx h hn) (fun a s hs => ?_) fun _ _ hs => hs
  exact (hf a s.next (Nat.le_trans hn hs.1) hs.2.2).after hs.1 hs.2.1 (Nat.le_refl _)

theorem ite {c : Prop} [Decidable c] {y : EStateM ε Heap α}
    (hx : c → Confined base expected n P x) (hy : ¬ c → Confined base expected n P y) :
    Confined base expected n P (if c then x else y) := by
  split_ifs with h
  · exact hx h
  · exact hy h

/-- A write to an object of the program's own. -/
theorem setItem {e : ε} {addr : ℕ} {members : List (Str × Value)} {key : Str} {v : Value}
    (haddr : base ≤ addr) :
    Confined base expected n (fun d _ => d = .dict addr (Value.setMember key v members))
      (setItem e (.dict addr members) key v : EStateM ε Heap Value) := by
  intro h _
  refine ⟨Nat.le_refl _, fun c hc => ?_, rfl⟩
  rcases List.mem_cons.mp hc with rfl | hc
  · exact .inr haddr
  · exact .inl hc

/-- `try x except: handler`. -/
theorem tryCatch {handler : ε → EStateM ε Heap α} (hx : Confined base expected' n P x)
    (hh : ∀ e, expected' e → Confined base expected n P (handler e)) :
    Confined base expected n P (tryCatch x handler) := by
  intro h hn
  rw [wp_tryCatch]
  refine wp_mono (hx h hn) (fun _ _ hs => hs) fun e s hs => ?_
  exact (hh e hs.2.2).after hs.1 hs.2.1 (Nat.le_trans hn hs.1)

end Confined

end AI2Apps.Objects
