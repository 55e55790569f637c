import Mathlib.Data.List.Nodup
import Mathlib.Data.Int.Notation
import Mathlib.Tactic.SplitIfs

/-!
# Doubly linked queues

A queue is kept as pointers between its members and two sentinels, with a counter.  `Holds`
says that the pointers spell out a list: forwards, backwards, no member twice, and nothing
that is not a member carries a pointer.  One rule for each operation says what it does to
that list.

* `popleft_cons`, `popleft_nil`, `popleftN_append`: from the front.
* `holds_append`, `holds_appendN`: at the back.
* `remove_append`, `remove_of_notMem`: from the middle.
* `toList_eq`: reading the queue gives the list.
-/

namespace AI2Apps

/-- A place that pointers go from and to. -/
inductive Node (α : Type) where
  | head
  | tail
  | block (a : α)
  deriving DecidableEq

/-- The pointers of a queue and its counter. -/
structure Links (α : Type) where
  next : Node α → Option (Node α)
  prev : Node α → Option (Node α)
  count : ℤ

namespace Links

open Node

variable {α : Type}

/-! ## Operations -/

section Operations

variable [DecidableEq α]

def setNext (q : Links α) (x : Node α) (v : Option (Node α)) : Links α :=
  { q with next := fun z => if z = x then v else q.next z }

def setPrev (q : Links α) (x : Node α) (v : Option (Node α)) : Links α :=
  { q with prev := fun z => if z = x then v else q.prev z }

/-- Both pointers of a member are cleared. -/
def clear (q : Links α) (a : α) : Links α := (q.setPrev (block a) none).setNext (block a) none

/-- A member's `prev` where there is a member. -/
def setPrevOf (q : Links α) : Option (Node α) → Option (Node α) → Links α
  | none, _ => q
  | some y, v => q.setPrev y v

/-- The sentinels alone. -/
def empty : Links α where
  next x := if x = head then some tail else none
  prev x := if x = tail then some head else none
  count := 0

/-- The first member is taken off; `none` where there is none. -/
def popleft (q : Links α) : Option (α × Links α) :=
  match q.next head with
  | some (block a) =>
    let reconnected := (q.setNext head (q.next (block a))).setPrevOf (q.next (block a)) (some head)
    some (a, { reconnected.clear a with count := q.count - 1 })
  | _ => none

/-- The loop of `popleftN`: the members taken, and where the walk stands. -/
def takeN : ℕ → Option (Node α) → List α → Links α → Option (List α × Option (Node α)) × Links α
  | 0, curr, result, q => (some (result, curr), q)
  | n + 1, some (block a), result, q => takeN n (q.next (block a)) (result ++ [a]) (q.clear a)
  | _ + 1, _, _, q => (none, q)

/-- The first `n` members are taken off; `none` where an assertion fails. -/
def popleftN (q : Links α) (n : ℕ) : Option (List α) × Links α :=
  if n = 0 then (some [], q)
  else if q.count < n then (none, q)
  else
    match takeN n (q.next head) [] q with
    | (none, q') => (none, q')
    | (some (result, curr), q') =>
      (some result,
        { (q'.setNext head curr).setPrevOf curr (some head) with count := q'.count - n })

/-- A member is taken out; `none` where it carries no pointers. -/
def remove (q : Links α) (a : α) : Option (Links α) :=
  match q.prev (block a), q.next (block a) with
  | some p, some n => some { ((q.setNext p (some n)).setPrev n (some p)).clear a with
      count := q.count - 1 }
  | _, _ => none

/-- The loop of `appendN`: members are linked behind `last`. -/
def linkBehind : List α → Node α → Links α → Node α × Links α
  | [], last, q => (last, q)
  | a :: rest, last, q =>
    linkBehind rest (block a) ((q.setPrev (block a) (some last)).setNext last (some (block a)))

/-- Members are appended at the back. -/
def appendN (q : Links α) (l : List α) : Links α :=
  match l, q.prev tail with
  | [], _ => q
  | _, none => q
  | l, some last =>
    let linked := linkBehind l last q
    { (linked.2.setNext linked.1 (some tail)).setPrev tail (some linked.1) with
      count := q.count + l.length }

/-- A member is appended at the back. -/
def append (q : Links α) (a : α) : Links α :=
  match q.prev tail with
  | none => q
  | some last =>
    { (((q.setNext last (some (block a))).setPrev (block a) (some last)).setNext (block a)
        (some tail)).setPrev tail (some (block a)) with count := q.count + 1 }

/-- The members from a place on, as far as the fuel goes. -/
def walk (q : Links α) : ℕ → Option (Node α) → List α
  | n + 1, some (block a) => a :: walk q n (q.next (block a))
  | _, _ => []

/-- The members from the front; a queue holds no more than it counts. -/
def toList (q : Links α) : List α := q.walk q.count.toNat (q.next head)

end Operations

/-! ## What pointers spell out -/

/-- The pointers lead from `x` through `l` to `y` and back. -/
def Linked (q : Links α) : Node α → List α → Node α → Prop
  | x, [], y => q.next x = some y ∧ q.prev y = some x
  | x, a :: l, y =>
    q.next x = some (block a) ∧ q.prev (block a) = some x ∧ Linked q (block a) l y

/-- The queue is the list `l`. -/
structure Holds (q : Links α) (l : List α) : Prop where
  linked : q.Linked head l tail
  nodup : l.Nodup
  unlinked : ∀ a ∉ l, q.next (block a) = none ∧ q.prev (block a) = none
  count : q.count = l.length

variable {q q' : Links α} {x y : Node α} {a : α} {l m : List α}

/-- A path depends on the pointers along it. -/
theorem Linked.congr (h : q.Linked x l y) (hx : q'.next x = q.next x)
    (hl : ∀ a ∈ l, q'.next (block a) = q.next (block a) ∧ q'.prev (block a) = q.prev (block a))
    (hy : q'.prev y = q.prev y) : q'.Linked x l y := by
  induction l generalizing x with
  | nil => exact ⟨hx.trans h.1, hy.trans h.2⟩
  | cons a l ih =>
    have ha := hl a List.mem_cons_self
    exact ⟨hx.trans h.1, ha.2.trans h.2.1,
      ih h.2.2 ha.1 fun b hb => hl b (List.mem_cons_of_mem _ hb)⟩

theorem linked_append :
    q.Linked x (l ++ a :: m) y ↔ q.Linked x l (block a) ∧ q.Linked (block a) m y := by
  induction l generalizing x with
  | nil => simp only [List.nil_append, Linked, and_assoc]
  | cons b l ih => simp only [List.cons_append, Linked, ih, and_assoc]

/-- Where a path goes first. -/
theorem Linked.next_eq (h : q.Linked x l y) :
    q.next x = some ((l.head?.map block).getD y) := by
  cases l with
  | nil => exact h.1
  | cons a l => exact h.1

/-- Where a path comes from last. -/
theorem Linked.prev_eq (h : q.Linked x l y) :
    q.prev y = some ((l.getLast?.map block).getD x) := by
  induction l generalizing x with
  | nil => exact h.2
  | cons a l ih =>
    rw [ih h.2.2]
    cases l with
    | nil => rfl
    | cons b l => simp [List.getLast?_eq_some_getLast]

theorem walk_of_linked {n : ℕ} (h : q.Linked x l tail) (hn : l.length ≤ n) :
    q.walk n (q.next x) = l := by
  induction l generalizing x n with
  | nil =>
    rw [h.1]
    cases n <;> rfl
  | cons a l ih =>
    obtain ⟨n, rfl⟩ := Nat.exists_eq_add_of_le' (Nat.lt_of_lt_of_le (Nat.succ_pos l.length) hn)
    rw [h.1]
    exact congrArg (a :: ·) (ih h.2.2 (Nat.le_of_succ_le_succ hn))

/-- Reading the queue from the front gives the list. -/
theorem Holds.toList_eq (h : q.Holds l) : q.toList = l :=
  walk_of_linked h.linked (Nat.le_of_eq (by rw [h.count, Int.toNat_natCast]))

/-- The loop of `popleftN` before `l`: the walk stands at the first of `l`, the rest of `l`
is linked to the end, and what was taken carries no pointer. -/
structure Loose (q : Links α) (curr : Option (Node α)) (l : List α) : Prop where
  curr_eq : curr = some ((l.head?.map block).getD tail)
  linked : ∀ a m, l = a :: m → q.Linked (block a) m tail
  nodup : l.Nodup
  unlinked : ∀ a ∉ l, q.next (block a) = none ∧ q.prev (block a) = none

theorem Holds.loose (h : q.Holds l) : q.Loose (q.next head) l where
  curr_eq := h.linked.next_eq
  linked a m hl := by
    have := h.linked
    rw [hl] at this
    exact this.2.2
  nodup := h.nodup
  unlinked := h.unlinked

section Rules

variable [DecidableEq α]

theorem holds_empty : (empty : Links α).Holds [] where
  linked := ⟨rfl, rfl⟩
  nodup := List.nodup_nil
  unlinked _ _ := ⟨rfl, rfl⟩
  count := rfl

/-! ## The front -/

theorem popleft_nil (h : q.Holds []) : q.popleft = none := by
  unfold popleft
  rw [h.linked.1]

/-- What comes first is taken, and the rest stays. -/
theorem popleft_cons (h : q.Holds (a :: l)) :
    ∃ q', q.popleft = some (a, q') ∧ q'.Holds l := by
  obtain ⟨hhead, hback, hrest⟩ := h.linked
  obtain ⟨hnotMem, hnodup⟩ := List.nodup_cons.mp h.nodup
  have hnext := hrest.next_eq
  unfold popleft
  rw [hhead]
  refine ⟨_, rfl, ?_, hnodup, ?_, ?_⟩
  · cases l with
    | nil =>
      obtain ⟨hn, -⟩ := hrest
      simp [Linked, clear, setNext, setPrev, setPrevOf, hn]
    | cons b l =>
      obtain ⟨hn, hp, hlast⟩ := hrest
      have hba : b ≠ a := fun hba => hnotMem (hba ▸ List.mem_cons_self)
      refine ⟨by simp [clear, setNext, setPrev, setPrevOf, hn],
        by simp [clear, setNext, setPrev, setPrevOf, hn, hba], hlast.congr ?_ ?_ ?_⟩
      · simp [clear, setNext, setPrev, setPrevOf, hn, hba]
      · intro c hc
        have hca : c ≠ a := fun hca => hnotMem (hca ▸ List.mem_cons_of_mem _ hc)
        have hcb : c ≠ b := fun hcb => (List.nodup_cons.mp hnodup).1 (hcb ▸ hc)
        simp [clear, setNext, setPrev, setPrevOf, hn, hca, hcb]
      · simp [clear, setNext, setPrev, setPrevOf, hn]
  · intro c hc
    rcases eq_or_ne c a with rfl | hca
    · simp [clear, setNext, setPrev]
    · obtain ⟨hcnext, hcprev⟩ := h.unlinked c (by simp [hca, hc])
      cases l with
      | nil =>
        obtain ⟨hn, -⟩ := hrest
        simp [clear, setNext, setPrev, setPrevOf, hn, hca, hcnext, hcprev]
      | cons b l =>
        obtain ⟨hn, -⟩ := hrest
        have hcb : c ≠ b := fun hcb => hc (hcb ▸ List.mem_cons_self)
        simp [clear, setNext, setPrev, setPrevOf, hn, hca, hcb, hcnext, hcprev]
  · simp only [h.count, List.length_cons]
    omega

/-- One turn of the loop. -/
theorem Loose.clear {curr : Option (Node α)} (h : q.Loose curr (a :: l)) :
    (q.clear a).Loose (q.next (block a)) l := by
  obtain ⟨hnotMem, hnodup⟩ := List.nodup_cons.mp h.nodup
  have hlinked := h.linked a l rfl
  refine ⟨hlinked.next_eq, ?_, hnodup, ?_⟩
  · rintro b m rfl
    refine hlinked.2.2.congr ?_ ?_ ?_
    · have hba : b ≠ a := fun hba => hnotMem (hba ▸ List.mem_cons_self)
      simp [Links.clear, setNext, setPrev, hba]
    · intro c hc
      have hca : c ≠ a := fun hca => hnotMem (hca ▸ List.mem_cons_of_mem _ hc)
      simp [Links.clear, setNext, setPrev, hca]
    · simp [Links.clear, setNext, setPrev]
  · intro c hc
    rcases eq_or_ne c a with rfl | hca
    · simp [Links.clear, setNext, setPrev]
    · obtain ⟨hcnext, hcprev⟩ := h.unlinked c (by simp [hca, hc])
      simp [Links.clear, setNext, setPrev, hca, hcnext, hcprev]

/-- The loop takes the members in their order. -/
theorem takeN_loose {curr : Option (Node α)} (result : List α) (h : q.Loose curr (l ++ m)) :
    ∃ q' curr', takeN l.length curr result q = (some (result ++ l, curr'), q') ∧
      q'.Loose curr' m ∧ q'.count = q.count := by
  induction l generalizing q curr result with
  | nil => exact ⟨q, curr, by rw [List.append_nil]; rfl, h, rfl⟩
  | cons a l ih =>
    obtain ⟨q', curr', htake, hloose, hcount⟩ := ih (result ++ [a]) h.clear
    refine ⟨q', curr', ?_, hloose, hcount⟩
    rw [h.curr_eq, List.length_cons]
    simp only [List.cons_append, List.head?_cons, Option.map_some, Option.getD_some, takeN]
    rw [htake, List.append_assoc, List.singleton_append]

/-- Joining the head to where the walk stands makes the rest a queue. -/
theorem Loose.reconnect {curr : Option (Node α)} (h : q.Loose curr l) (c : ℤ)
    (hc : c = l.length) :
    Holds { (q.setNext head curr).setPrevOf curr (some head) with count := c } l := by
  rw [h.curr_eq]
  refine ⟨?_, h.nodup, ?_, hc⟩
  · cases l with
    | nil => simp [Linked, setNext, setPrev, setPrevOf]
    | cons a l =>
      obtain ⟨hnotMem, -⟩ := List.nodup_cons.mp h.nodup
      refine ⟨by simp [setNext, setPrev, setPrevOf], by simp [setNext, setPrev, setPrevOf],
        (h.linked a l rfl).congr ?_ ?_ ?_⟩
      · simp [setNext, setPrev, setPrevOf]
      · intro c hc
        have hca : c ≠ a := fun hca => hnotMem (hca ▸ hc)
        simp [setNext, setPrev, setPrevOf, hca]
      · simp [setNext, setPrev, setPrevOf]
  · intro c hc
    obtain ⟨hcnext, hcprev⟩ := h.unlinked c hc
    cases l with
    | nil => simp [setNext, setPrev, setPrevOf, hcnext, hcprev]
    | cons a l =>
      have hca : c ≠ a := fun hca => hc (hca ▸ List.mem_cons_self)
      simp [setNext, setPrev, setPrevOf, hca, hcnext, hcprev]

/-- What comes first is taken, as many as were asked for. -/
theorem popleftN_append (h : q.Holds (l ++ m)) :
    ∃ q', q.popleftN l.length = (some l, q') ∧ q'.Holds m := by
  unfold popleftN
  by_cases hl : l.length = 0
  · rw [if_pos hl, List.length_eq_zero_iff.mp hl]
    rw [List.length_eq_zero_iff.mp hl, List.nil_append] at h
    exact ⟨q, rfl, h⟩
  · have hcount := h.count
    rw [List.length_append] at hcount
    rw [if_neg hl, if_neg (by omega)]
    obtain ⟨q', curr, htake, hloose, hcount'⟩ := takeN_loose [] h.loose
    rw [htake]
    exact ⟨_, rfl, hloose.reconnect _ (by omega)⟩

/-! ## The back -/

theorem holds_append (h : q.Holds l) (ha : a ∉ l) : (q.append a).Holds (l ++ [a]) := by
  have hlast := h.linked.prev_eq
  obtain ⟨hanext, haprev⟩ := h.unlinked a ha
  unfold append
  rw [hlast]
  refine ⟨linked_append.mpr ⟨?_, ?_⟩, ?_, ?_, ?_⟩
  · rcases List.eq_nil_or_concat l with rfl | ⟨k, b, rfl⟩
    · simp [Linked, setNext, setPrev]
    · rw [List.concat_eq_append] at h ha ⊢
      obtain ⟨hfirst, hb⟩ := linked_append.mp h.linked
      have hba : b ≠ a := fun hba => ha (hba ▸ List.mem_append_right _ List.mem_cons_self)
      refine linked_append.mpr ⟨hfirst.congr ?_ ?_ ?_, ?_⟩
      · simp [setNext, setPrev]
      · intro c hc
        have hca : c ≠ a := fun hca => ha (hca ▸ List.mem_append_left _ hc)
        have hcb : c ≠ b := fun hcb =>
          (List.nodup_append.mp h.nodup).2.2 c hc b List.mem_cons_self hcb
        simp [setNext, setPrev, hca, hcb]
      · simp [setNext, setPrev, hba]
      · simp [Linked, setNext, setPrev, hba]
  · simp [Linked, setNext, setPrev]
  · exact List.nodup_append.mpr ⟨h.nodup, List.nodup_singleton a, fun b hb c hc hbc =>
      ha (List.mem_singleton.mp hc ▸ hbc ▸ hb)⟩
  · intro c hc
    rw [List.mem_append, List.mem_singleton, not_or] at hc
    obtain ⟨hcnext, hcprev⟩ := h.unlinked c hc.1
    rcases List.eq_nil_or_concat l with rfl | ⟨k, b, rfl⟩
    · simp [setNext, setPrev, hc.2, hcnext, hcprev]
    · have hcb : c ≠ b := fun hcb => hc.1 (by simp [hcb])
      simp [setNext, setPrev, hc.2, hcb, hcnext, hcprev]
  · simp only [h.count, List.length_append, List.length_singleton]
    omega

/-- The pointers with the end joined to `last`. -/
def close (q : Links α) (last : Node α) : Links α :=
  (q.setNext last (some tail)).setPrev tail (some last)

theorem append_close (q : Links α) (last : Node α) (a : α) :
    (q.close last).append a = { close ((q.setPrev (block a) (some last)).setNext last
      (some (block a))) (block a) with count := q.count + 1 } := by
  simp only [append, close, setNext, setPrev, if_pos, Links.mk.injEq, and_true]
  refine ⟨?_, ?_⟩ <;> funext z <;> split_ifs <;> rfl

theorem linkBehind_count (l : List α) (last : Node α) (q : Links α) (c : ℤ) :
    linkBehind l last { q with count := c } =
      ((linkBehind l last q).1, { (linkBehind l last q).2 with count := c }) := by
  induction l generalizing last q with
  | nil => rfl
  | cons a l ih => exact ih _ ((q.setPrev (block a) (some last)).setNext last (some (block a)))

/-- Linking members behind the last one is appending them in turn. -/
theorem foldl_append_close (l : List α) (last : Node α) (q : Links α) :
    l.foldl append (q.close last) = { close (linkBehind l last q).2 (linkBehind l last q).1 with
      count := q.count + l.length } := by
  induction l generalizing last q with
  | nil =>
    have hcount : q.count + ([] : List α).length = q.count := Int.add_zero _
    rw [hcount]
    rfl
  | cons a l ih =>
    rw [List.foldl_cons, append_close]
    have := ih (block a) { (q.setPrev (block a) (some last)).setNext last (some (block a)) with
      count := q.count + 1 }
    rw [linkBehind_count] at this
    refine (this.trans ?_)
    have hcount : q.count + (a :: l).length = q.count + 1 + l.length := by
      rw [List.length_cons]
      omega
    rw [hcount]
    rfl

/-- Appending many is appending them in turn. -/
theorem appendN_eq_foldl (h : q.Holds l) (m : List α) : q.appendN m = m.foldl append q := by
  cases m with
  | nil => rfl
  | cons a m =>
    have hlast := h.linked.prev_eq
    have hclosed : q.close ((l.getLast?.map block).getD head) = q := by
      have hnext : q.next ((l.getLast?.map block).getD head) = some tail := by
        rcases List.eq_nil_or_concat l with rfl | ⟨k, b, rfl⟩
        · exact h.linked.1
        · rw [List.concat_eq_append] at h ⊢
          have := (linked_append.mp h.linked).2.1
          simpa using this
      simp only [close, setNext, setPrev]
      congr 1
      · funext z
        split_ifs with hz
        · rw [hz, hnext]
        · rfl
      · funext z
        split_ifs with hz
        · rw [hz, hlast]
        · rfl
    rw [← hclosed, foldl_append_close, hclosed]
    unfold appendN
    rw [hlast]
    rfl

theorem holds_appendN (h : q.Holds l) (hm : m.Nodup) (hdisjoint : ∀ a ∈ m, a ∉ l) :
    (q.appendN m).Holds (l ++ m) := by
  rw [appendN_eq_foldl h]
  induction m generalizing q l with
  | nil => rwa [List.append_nil]
  | cons a m ih =>
    obtain ⟨ham, hm⟩ := List.nodup_cons.mp hm
    have happend := holds_append h (hdisjoint a List.mem_cons_self)
    rw [List.foldl_cons, ← List.singleton_append, ← List.append_assoc]
    refine ih happend hm fun b hb hbl => ?_
    rcases List.mem_append.mp hbl with hbl | hba
    · exact hdisjoint b (List.mem_cons_of_mem _ hb) hbl
    · exact ham (List.mem_singleton.mp hba ▸ hb)

/-! ## The middle -/

theorem remove_of_notMem (h : q.Holds l) (ha : a ∉ l) : q.remove a = none := by
  unfold remove
  rw [(h.unlinked a ha).1, (h.unlinked a ha).2]

/-- What is taken out of the middle leaves the rest in its order. -/
theorem remove_append (h : q.Holds (l ++ a :: m)) :
    ∃ q', q.remove a = some q' ∧ q'.Holds (l ++ m) := by
  obtain ⟨hfirst, hlast⟩ := linked_append.mp h.linked
  have hprev := hfirst.prev_eq
  have hnext := hlast.next_eq
  obtain ⟨hl, ham, hlam⟩ := List.nodup_append.mp h.nodup
  obtain ⟨hnotMem, hm⟩ := List.nodup_cons.mp ham
  have hal : ∀ c ∈ l, c ≠ a := fun c hc hca => hlam c hc a List.mem_cons_self hca
  have hlm : ∀ c ∈ l, ∀ d ∈ m, c ≠ d := fun c hc d hd => hlam c hc d (List.mem_cons_of_mem _ hd)
  have ham' : ∀ c ∈ m, c ≠ a := fun c hc hca => hnotMem (hca ▸ hc)
  unfold remove
  rw [hprev, hnext]
  refine ⟨_, rfl, ?_, ?_, ?_, ?_⟩
  · rcases List.eq_nil_or_concat l with rfl | ⟨k, b, rfl⟩
    · cases m with
      | nil => simp [Linked, clear, setNext, setPrev]
      | cons c m =>
        have hca := ham' c List.mem_cons_self
        refine ⟨by simp [clear, setNext, setPrev], by simp [clear, setNext, setPrev, hca],
          hlast.2.2.congr ?_ ?_ ?_⟩
        · simp [clear, setNext, setPrev, hca]
        · intro d hd
          have hda := ham' d (List.mem_cons_of_mem _ hd)
          have hdc : d ≠ c := fun hdc => (List.nodup_cons.mp hm).1 (hdc ▸ hd)
          simp [clear, setNext, setPrev, hda, hdc]
        · simp [clear, setNext, setPrev]
    · rw [List.concat_eq_append] at *
      have hba := hal b (by simp)
      obtain ⟨hk, -⟩ := linked_append.mp hfirst
      have hkb : ∀ d ∈ k, d ≠ b := fun d hd hdb =>
        (List.nodup_append.mp hl).2.2 d hd b List.mem_cons_self hdb
      cases m with
      | nil =>
        rw [List.append_nil]
        refine linked_append.mpr ⟨hk.congr ?_ ?_ ?_, ?_⟩
        · simp [clear, setNext, setPrev]
        · intro d hd
          have hda := hal d (List.mem_append_left _ hd)
          simp [clear, setNext, setPrev, hda, hkb d hd]
        · simp [clear, setNext, setPrev, hba]
        · simp [Linked, clear, setNext, setPrev, hba]
      | cons c m =>
        have hca := ham' c List.mem_cons_self
        have hbc := hlm b (by simp) c List.mem_cons_self
        rw [List.append_assoc, List.singleton_append]
        refine linked_append.mpr ⟨hk.congr ?_ ?_ ?_, ?_, ?_, hlast.2.2.congr ?_ ?_ ?_⟩
        · simp [clear, setNext, setPrev]
        · intro d hd
          have hda := hal d (List.mem_append_left _ hd)
          have hdc := hlm d (List.mem_append_left _ hd) c List.mem_cons_self
          simp [clear, setNext, setPrev, hda, hkb d hd, hdc]
        · simp [clear, setNext, setPrev, hba, hbc]
        · simp [clear, setNext, setPrev, hba]
        · simp [clear, setNext, setPrev, hca]
        · simp [clear, setNext, setPrev, hca, hbc.symm]
        · intro d hd
          have hda := ham' d (List.mem_cons_of_mem _ hd)
          have hdc : d ≠ c := fun hdc => (List.nodup_cons.mp hm).1 (hdc ▸ hd)
          have hbd := hlm b (by simp) d (List.mem_cons_of_mem _ hd)
          simp [clear, setNext, setPrev, hda, hdc, hbd.symm]
        · simp [clear, setNext, setPrev]
  · exact List.nodup_append.mpr ⟨hl, hm, hlm⟩
  · intro d hd
    rw [List.mem_append, not_or] at hd
    rcases eq_or_ne d a with rfl | hda
    · simp [clear, setNext, setPrev]
    · obtain ⟨hdnext, hdprev⟩ := h.unlinked d (by simp [hd, hda])
      have hdp : block d ≠ (l.getLast?.map block).getD head := by
        rcases List.eq_nil_or_concat l with rfl | ⟨k, b, rfl⟩
        · exact nofun
        · have hdb : d ≠ b := fun hdb => hd.1 (by simp [hdb])
          simpa using hdb
      have hdn : block d ≠ (m.head?.map block).getD tail := by
        cases m with
        | nil => exact nofun
        | cons c m =>
          have hdc : d ≠ c := fun hdc => hd.2 (hdc ▸ List.mem_cons_self)
          simpa using hdc
      simp [clear, setNext, setPrev, hda, hdp, hdn, hdnext, hdprev]
  · simp only [h.count, List.length_append, List.length_cons]
    omega

end Rules

end Links

end AI2Apps
