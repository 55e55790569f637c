import AI2Apps.Context.Projections
import AI2Apps.Lib.Pending
import Mathlib.Data.List.GetD

/-!
# Cuts between calls and results

The open calls of a surface, seen as names that are opened and closed: a cut is where no
call is open, and what lies between two cuts closes its own calls, so that it can be replaced
wherever it stands.

* `pendingAfter`: the open calls after a list of nodes.
* `cutAt_eq_true_iff`: what a cut is.
* `balancedCuts_congr`: `balanced_cuts` sees what is open only.
* `pendingAfter_eq_ok`: the calls as names.
* `pendingAfter_of_closed`: what is closed in itself.
-/

namespace AI2Apps.Context

variable {p q : Finset Str} {nodes more : List Node} {cuts : List Bool}

theorem bind_eq_ok_iff {ε α β : Type} {x : Except ε α} {f : α → Except ε β} {b : β} :
    (x >>= f) = .ok b ↔ ∃ a, x = .ok a ∧ f a = .ok b := by
  cases x with
  | error e =>
    refine ⟨fun h => (by cases h), ?_⟩
    rintro ⟨a, h, -⟩
    cases h
  | ok a =>
    refine ⟨fun h => ⟨a, rfl, h⟩, ?_⟩
    rintro ⟨a', h, hf⟩
    obtain rfl := Except.ok.inj h
    exact hf

theorem map_eq_ok_iff {ε α β : Type} {x : Except ε α} {f : α → β} {b : β} :
    x.map f = .ok b ↔ ∃ a, x = .ok a ∧ f a = b := by
  cases x with
  | error e =>
    refine ⟨fun h => (by cases h), ?_⟩
    rintro ⟨a, h, -⟩
    cases h
  | ok a =>
    rw [Except.map]
    refine ⟨fun h => ⟨a, rfl, Except.ok.inj h⟩, ?_⟩
    rintro ⟨a', h, rfl⟩
    rw [Except.ok.inj h]

/-! ## After a list of nodes -/

/-- The open calls after the nodes. -/
def pendingAfter (p : Finset Str) : List Node → Except Raised (Finset Str)
  | [] => .ok p
  | n :: nodes => pairNode p n.message >>= fun q => pendingAfter q nodes

theorem pendingAfter_append (p : Finset Str) (nodes more : List Node) :
    pendingAfter p (nodes ++ more) = pendingAfter p nodes >>= fun q => pendingAfter q more := by
  induction nodes generalizing p with
  | nil => rfl
  | cons n nodes ih =>
    rw [List.cons_append, pendingAfter, pendingAfter, bind_assoc]
    exact congrArg _ (funext fun q => ih q)

theorem pendingAfter_singleton (p : Finset Str) (n : Node) :
    pendingAfter p [n] = pairNode p n.message := by
  rw [pendingAfter]
  exact bind_pure _

/-- The list of all of them is computed where the last is. -/
theorem pendings_eq_ok {l : List (Finset Str)} (h : pendings p nodes = .ok l) :
    l.length = nodes.length + 1 ∧
      ∀ i ≤ nodes.length, pendingAfter p (nodes.take i) = .ok (l.getD i ∅) := by
  induction nodes generalizing p l with
  | nil =>
    obtain rfl := Except.ok.inj h
    refine ⟨rfl, fun i hi => ?_⟩
    obtain rfl := Nat.le_zero.mp hi
    rfl
  | cons n nodes ih =>
    rw [pendings] at h
    obtain ⟨q, hq, h⟩ := bind_eq_ok_iff.mp h
    obtain ⟨rest, hrest, h⟩ := bind_eq_ok_iff.mp h
    obtain rfl := Except.ok.inj h
    obtain ⟨hlength, hafter⟩ := ih hrest
    refine ⟨congrArg (· + 1) hlength, fun i hi => ?_⟩
    cases i with
    | zero => rfl
    | succ i =>
      rw [List.take_succ_cons, pendingAfter, hq]
      exact hafter i (Nat.le_of_succ_le_succ hi)

theorem pendings_of_pendingAfter (h : pendingAfter p nodes = .ok q) :
    ∃ l, pendings p nodes = .ok l := by
  induction nodes generalizing p with
  | nil => exact ⟨[p], rfl⟩
  | cons n nodes ih =>
    rw [pendingAfter] at h
    obtain ⟨r, hr, h⟩ := bind_eq_ok_iff.mp h
    obtain ⟨l, hl⟩ := ih h
    refine ⟨p :: l, ?_⟩
    rw [pendings, hr]
    exact bind_eq_ok_iff.mpr ⟨r, rfl, bind_eq_ok_iff.mpr ⟨l, hl, rfl⟩⟩

/-- **A cut is where no call is open.** -/
theorem cutAt_eq_true_iff (h : balancedCuts nodes = .ok cuts) (i : ℕ) :
    cutAt cuts i = true ↔ i ≤ nodes.length ∧ pendingAfter ∅ (nodes.take i) = .ok ∅ := by
  obtain ⟨l, hl, rfl⟩ := map_eq_ok_iff.mp h
  obtain ⟨hlength, hafter⟩ := pendings_eq_ok hl
  rw [cutAt]
  by_cases hi : i ≤ nodes.length
  · have hlt : i < l.length := by omega
    rw [List.getD_eq_getElem _ _ (by rwa [List.length_map]), List.getElem_map, decide_eq_true_eq,
      hafter i hi, List.getD_eq_getElem _ _ hlt]
    exact ⟨fun h => ⟨hi, congrArg _ h⟩, fun h => Except.ok.inj h.2⟩
  · rw [List.getD_eq_default _ _ (by rw [List.length_map]; omega)]
    exact ⟨fun h => absurd h Bool.false_ne_true, fun h => absurd h.1 hi⟩

theorem balancedCuts_of_pendingAfter (h : pendingAfter ∅ nodes = .ok q) :
    ∃ cuts, balancedCuts nodes = .ok cuts := by
  obtain ⟨l, hl⟩ := pendings_of_pendingAfter h
  exact ⟨_, map_eq_ok_iff.mpr ⟨l, hl, rfl⟩⟩

theorem pendingAfter_of_balancedCuts (h : balancedCuts nodes = .ok cuts) :
    ∃ q, pendingAfter ∅ nodes = .ok q := by
  obtain ⟨l, hl, -⟩ := map_eq_ok_iff.mp h
  have hlast := (pendings_eq_ok hl).2 nodes.length le_rfl
  rw [List.take_length] at hlast
  exact ⟨_, hlast⟩

theorem cutAt_length (h : balancedCuts nodes = .ok cuts) (hq : pendingAfter ∅ nodes = .ok q) :
    cutAt cuts nodes.length = decide (q = ∅) := by
  rw [Bool.eq_iff_iff, cutAt_eq_true_iff h, List.take_length, hq, decide_eq_true_eq]
  exact ⟨fun h => Except.ok.inj h.2, fun h => ⟨le_rfl, congrArg _ h⟩⟩

/-- **What leaves the same calls open passes as well**, and is as balanced at its end. -/
theorem balancedCuts_congr (hopen : ∀ q, pendingAfter ∅ nodes = .ok q → pendingAfter ∅ more = .ok q)
    (h : balancedCuts nodes = .ok cuts) :
    ∃ cuts', balancedCuts more = .ok cuts' ∧
      cutAt cuts' more.length = cutAt cuts nodes.length := by
  obtain ⟨q, hq⟩ := pendingAfter_of_balancedCuts h
  obtain ⟨cuts', hcuts'⟩ := balancedCuts_of_pendingAfter (hopen q hq)
  refine ⟨cuts', hcuts', ?_⟩
  rw [cutAt_length h hq, cutAt_length hcuts' (hopen q hq)]

theorem take_append_drop_take {α : Type} (l : List α) {i j : ℕ} (h : i ≤ j) :
    l.take i ++ (l.take j).drop i = l.take j := by
  have hsplit := List.take_append_drop i (l.take j)
  rw [List.take_take, min_eq_left h] at hsplit
  exact hsplit

/-- What lies between two cuts closes its own calls. -/
theorem pendingAfter_between (h : balancedCuts nodes = .ok cuts) {i j : ℕ} (hij : i ≤ j)
    (hi : cutAt cuts i = true) (hj : cutAt cuts j = true) :
    pendingAfter ∅ ((nodes.take j).drop i) = .ok ∅ := by
  have hleft := ((cutAt_eq_true_iff h i).mp hi).2
  have hright := ((cutAt_eq_true_iff h j).mp hj).2
  rw [← take_append_drop_take nodes hij, pendingAfter_append, hleft] at hright
  exact hright

/-! ## Calls as names -/

theorem openCalls_eq_ok_iff {calls : List Json} :
    openCalls p calls = .ok q ↔
      ∃ ids, calls.mapM callId = .ok ids ∧ Pending.openAll p ids = some q := by
  induction calls generalizing p with
  | nil =>
    rw [openCalls, List.mapM_nil]
    refine ⟨fun h => ⟨[], rfl, congrArg some (Except.ok.inj h)⟩, ?_⟩
    rintro ⟨ids, hids, h⟩
    obtain rfl := Except.ok.inj hids
    exact congrArg _ (Option.some.inj h)
  | cons call calls ih =>
    rw [openCalls, List.mapM_cons, bind_eq_ok_iff]
    constructor
    · rintro ⟨identifier, hid, h⟩
      split_ifs at h with hmem
      obtain ⟨ids, hids, h⟩ := ih.mp h
      refine ⟨identifier :: ids, ?_, ?_⟩
      · exact bind_eq_ok_iff.mpr ⟨identifier, hid, bind_eq_ok_iff.mpr ⟨ids, hids, rfl⟩⟩
      · rw [Pending.openAll, if_neg hmem]
        exact h
    · rintro ⟨ids, hids, h⟩
      obtain ⟨identifier, hid, hids⟩ := bind_eq_ok_iff.mp hids
      obtain ⟨rest, hrest, hids⟩ := bind_eq_ok_iff.mp hids
      obtain rfl := Except.ok.inj hids
      rw [Pending.openAll] at h
      split_ifs at h with hmem
      refine ⟨identifier, hid, ?_⟩
      rw [if_neg hmem]
      exact ih.mpr ⟨rest, hrest, h⟩

/-- The ids of the calls of a message. -/
def Message.opens? (m : Message) : Option (List Str) :=
  match m.toolCalls with
  | none => some []
  | some (.arr calls) => (calls.mapM callId).toOption
  | some _ => none

/-- The id of the call of a result. -/
def Message.closes? (m : Message) : Option (Option Str) :=
  if m.role = some (str "tool") then ((m.get "tool_call_id").bind Json.str?).map some
  else some none

/-- What a message does to the open calls. -/
def Message.item? (m : Message) : Option (Pending.Item Str) :=
  m.opens?.bind fun opens => m.closes?.map fun closes => ⟨opens, closes⟩

theorem openNode_eq_ok {m : Message} (h : openNode p m = .ok q) :
    ∃ ids, m.opens? = some ids ∧ Pending.openAll p ids = some q := by
  unfold openNode at h
  rw [Message.opens?]
  cases hcalls : m.toolCalls with
  | none =>
    rw [hcalls] at h
    exact ⟨[], rfl, congrArg some (Except.ok.inj h)⟩
  | some calls =>
    rw [hcalls] at h
    dsimp only at h
    split_ifs at h
    cases calls with
    | arr calls =>
      obtain ⟨ids, hids, h⟩ := openCalls_eq_ok_iff.mp h
      exact ⟨ids, congrArg Except.toOption hids, h⟩
    | _ => cases h

theorem closeNode_eq_ok {m : Message} (h : closeNode p m = .ok q) :
    ∃ closes, m.closes? = some closes ∧ Pending.close p closes = some q := by
  unfold closeNode at h
  unfold Message.closes?
  split_ifs at h ⊢
  · split at h
    · rename_i identifier hget
      split_ifs at h with hmem
      refine ⟨some identifier, by rw [hget]; rfl, ?_⟩
      rw [Pending.close, if_pos hmem, Except.ok.inj h]
    all_goals cases h
  · exact ⟨none, rfl, congrArg some (Except.ok.inj h)⟩

/-- **A message does to the open calls what its item does to names.** -/
theorem pairNode_eq_ok {m : Message} (h : pairNode p m = .ok q) :
    ∃ item, m.item? = some item ∧ item.step p = some q := by
  obtain ⟨r, hr, h⟩ := bind_eq_ok_iff.mp h
  obtain ⟨ids, hids, hopen⟩ := openNode_eq_ok hr
  obtain ⟨closes, hcloses, hclose⟩ := closeNode_eq_ok h
  refine ⟨⟨ids, closes⟩, ?_, ?_⟩
  · rw [Message.item?, hids, Option.bind_some, hcloses, Option.map_some]
  · rw [Pending.Item.step, hopen, Option.bind_some]
    exact hclose

theorem pendingAfter_eq_ok (h : pendingAfter p nodes = .ok q) :
    ∃ items, nodes.mapM (fun n => n.message.item?) = some items ∧ Pending.scan p items = some q := by
  induction nodes generalizing p with
  | nil => exact ⟨[], rfl, congrArg some (Except.ok.inj h)⟩
  | cons n nodes ih =>
    obtain ⟨r, hr, h⟩ := bind_eq_ok_iff.mp h
    obtain ⟨item, hitem, hstep⟩ := pairNode_eq_ok hr
    obtain ⟨items, hitems, hscan⟩ := ih h
    refine ⟨item :: items, ?_, ?_⟩
    · rw [List.mapM_cons, hitem, hitems]
      rfl
    · rw [Pending.scan, hstep, Option.bind_some]
      exact hscan

/-- **What is closed in itself changes nothing wherever it stands.** -/
theorem pendingAfter_of_closed (h : pendingAfter ∅ nodes = .ok ∅)
    (h' : pendingAfter p nodes = .ok q) : q = p := by
  obtain ⟨items, hitems, hscan⟩ := pendingAfter_eq_ok h
  obtain ⟨items', hitems', hscan'⟩ := pendingAfter_eq_ok h'
  obtain rfl := Option.some.inj (hitems.symm.trans hitems')
  exact Pending.scan_of_closed hscan hscan'

/-- A part is replaced by another that does the same. -/
theorem pendingAfter_replace {before part other after : List Node}
    (h : ∀ p q, pendingAfter p part = .ok q → pendingAfter p other = .ok q)
    (hok : pendingAfter p (before ++ part ++ after) = .ok q) :
    pendingAfter p (before ++ other ++ after) = .ok q := by
  rw [pendingAfter_append] at hok ⊢
  obtain ⟨r, hr, hafter⟩ := bind_eq_ok_iff.mp hok
  rw [pendingAfter_append] at hr ⊢
  obtain ⟨b, hb, hpart⟩ := bind_eq_ok_iff.mp hr
  exact bind_eq_ok_iff.mpr ⟨r, bind_eq_ok_iff.mpr ⟨b, hb, h b r hpart⟩, hafter⟩

end AI2Apps.Context
