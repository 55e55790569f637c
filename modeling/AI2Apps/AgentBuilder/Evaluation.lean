import AI2Apps.AgentBuilder.Expressions

/-!
# What an evaluation returns, raises and touches

The reader makes lists and dicts of its own and hands on parts of its environment, but
it writes to nothing; every exception an allowed expression can raise in it is one that
`evaluate` turns into a `ValueError`.  The copy at the end shares no object with the
environment, and `bounded` has measured the data it copies.

* `read_reads`: one induction over the syntax.
* `evaluate_reads`: what comes out is bounded, new, and a `ValueError` otherwise.
-/

namespace AI2Apps.AgentBuilder

open Faults Objects

/-- `evaluate` catches the exception. -/
def Caught (e : Exc) : Prop := e.caught = .value

/-- Values that exist. -/
abbrev IsBelow : Value → ℕ → Prop := fun v k => v.Below k

abbrev AllBelow : List Value → ℕ → Prop := fun vs k => Value.ItemsBelow k vs

/-- The objects of the environment exist. -/
structure Environment.Below (n : ℕ) (env : Environment) : Prop where
  inputs : env.inputs.Below n
  vars : env.vars.Below n
  outputs : env.outputs.Below n

section Pieces

variable {host : Host} {env : Environment} {n : ℕ} {v w : Value}

theorem reads_bounded (hv : v.Below n) : Reads Caught n IsBelow (bounded host v) := by
  unfold bounded
  split
  · exact .pure fun k hk => hv.mono hk
  · exact .throw rfl

theorem reads_orValue {o : Option Value} (h : ∀ v, o = some v → v.Below n) :
    Reads Caught n IsBelow (orValue o) := by
  cases o with
  | none => exact .throw rfl
  | some v => exact .pure fun k hk => (h v rfl).mono hk

theorem reads_nested {α : Type} {P : α → ℕ → Prop} {x : Eval α} (depth : ℕ)
    (h : Reads Caught n P x) : Reads Caught n P (nested depth x) :=
  .ite (fun _ => .throw rfl) fun _ => h

theorem reads_lookup (henv : env.Below n) (id : Str) :
    Reads Caught n IsBelow (env.lookup id) := by
  unfold Environment.lookup
  refine .ite (fun _ => .pure fun k hk => henv.inputs.mono hk) fun _ => ?_
  refine .ite (fun _ => .pure fun k hk => henv.vars.mono hk) fun _ => ?_
  refine .ite (fun _ => .pure fun k hk => henv.outputs.mono hk) fun _ => ?_
  refine .ite (fun _ => .pure fun _ _ => trivial) fun _ => ?_
  refine .ite (fun _ => .pure fun _ _ => trivial) fun _ => ?_
  exact .ite (fun _ => .pure fun _ _ => trivial) fun _ => .throw rfl

theorem below_toValue {literal : Literal} (h : literal.toValue = some v) : v.Below n := by
  cases literal
  case other => exact nomatch h
  all_goals
    obtain rfl := Option.some.inj h
    trivial

theorem below_getField {attr : Str} (hv : v.Below n) (h : getField attr v = some w) :
    w.Below n := by
  unfold getField at h
  split at h
  · exact hv.2.lookup h
  · exact nomatch h

theorem below_getItem {index : Value} (hv : v.Below n) (h : getItem v index = some w) :
    w.Below n := by
  unfold getItem at h
  split at h
  · split_ifs at h
    exact hv.2.get (List.mem_of_getElem? h)
  · split_ifs at h
    obtain ⟨c, -, rfl⟩ := Option.map_eq_some_iff.mp h
    trivial
  · exact hv.2.lookup h
  · exact nomatch h

theorem below_zipMembers (keys : List Str) {values : List Value}
    (h : Value.ItemsBelow n values) : Value.MembersBelow n (zipMembers keys values) := by
  suffices hfold : ∀ (pairs : List (Str × Value)) (members : List (Str × Value)),
      (∀ p ∈ pairs, p.2.Below n) → Value.MembersBelow n members →
      Value.MembersBelow n (pairs.foldl (fun ms p => Value.setMember p.1 p.2 ms) members) by
    exact hfold _ [] (fun p hp => h.get (List.of_mem_zip hp).2) trivial
  intro pairs
  induction pairs with
  | nil => exact fun _ _ hmembers => hmembers
  | cons p pairs ih =>
    intro members hpairs hmembers
    refine ih _ (fun q hq => hpairs q (List.mem_cons_of_mem _ hq)) ?_
    exact hmembers.setMember (hpairs p List.mem_cons_self)

theorem reads_unary (op : UnaryOp) (hv : v.Below n) : Reads Caught n IsBelow (unary op v) := by
  unfold unary
  split
  · exact .pure fun _ _ => trivial
  · exact .throw rfl
  · refine .ite (fun hnum => .pure fun k hk => ?_) fun _ => .throw rfl
    split
    · cases v
      case int => trivial
      case float => trivial
      all_goals exact nomatch hnum
    · exact hv.mono hk

theorem below_arith {op : BinOp} {u : Value} (h : op.arith host v w = .ok u) : u.Below n := by
  unfold BinOp.arith at h
  split at h
  all_goals try split_ifs at h
  all_goals try split at h
  all_goals first
    | (cases h; done)
    | rw [← Except.ok.inj h]; trivial

theorem caught_arith {op : BinOp} {e : Exc} (h : op.arith host v w = .error e) : Caught e := by
  unfold BinOp.arith at h
  split at h
  all_goals try split_ifs at h
  all_goals try split at h
  all_goals first
    | (cases h; done)
    | rw [← Except.error.inj h]; rfl
    | rename_i failure _
      rw [← Except.error.inj h]
      cases failure <;> rfl

theorem reads_concatenate {x : Eval Value} (hv : v.Below n) (hw : w.Below n)
    (h : concatenate v w = some x) : Reads Caught n IsBelow x := by
  unfold concatenate at h
  split at h
  · rw [← Option.some.inj h]
    exact .ite (fun _ => .throw rfl) fun _ => .pure fun _ _ => trivial
  · rw [← Option.some.inj h]
    refine .ite (fun _ => .throw rfl) fun _ => .bind .alloc fun addr k hk haddr => ?_
    refine .pure fun m hm => ⟨Nat.lt_of_lt_of_le haddr.2 hm, ?_⟩
    have hnm : n ≤ m := Nat.le_trans hk hm
    exact (hv.2.mono hnm).append (hw.2.mono hnm)
  · exact nomatch h

theorem reads_binary (op : BinOp) (hv : v.Below n) (hw : w.Below n) :
    Reads Caught n IsBelow (binary host op v w) := by
  unfold binary
  split
  · rename_i x hx
    have hjoin : concatenate v w = some x := by
      split_ifs at hx
      exact hx
    exact .bind (reads_concatenate hv hw hjoin) fun u k _ hu => reads_bounded hu
  · refine .ite (fun _ => ?_) fun _ => .throw rfl
    split
    · rename_i u hu
      exact reads_bounded (below_arith hu)
    · rename_i e he
      exact .throw (caught_arith he)

theorem reads_asBool (v : Value) : Reads Caught n (fun _ _ => True) (asBool v) := by
  cases v
  case bool => exact .pure fun _ _ => trivial
  all_goals exact .throw rfl

theorem below_firstBy (before : FloatVal → FloatVal → Bool) {values : List Value}
    (hv : v.Below n) (h : Value.ItemsBelow n values) : (firstBy before v values).Below n := by
  induction values generalizing v with
  | nil => exact hv
  | cons u values ih =>
    unfold firstBy
    split
    · refine ih ?_ h.2
      split
      · exact h.1
      · exact hv
    · exact ih hv h.2

theorem below_applyFunction {id : Str} {args : List Value} (h : Value.ItemsBelow n args)
    (hw : applyFunction id args = some w) : w.Below n := by
  unfold applyFunction at hw
  split at hw
  · exact nomatch hw
  · rename_i v rest
    split_ifs at hw with h₁ h₂ h₃ h₄ h₅ h₆
    · unfold length at hw
      split at hw
      all_goals first
        | (cases hw; done)
        | rw [← Option.some.inj hw]; trivial
    · rw [← Option.some.inj hw]
      unfold absolute
      split
      all_goals first
        | trivial
        | exact h.1
    · rw [← Option.some.inj hw]
      exact below_firstBy _ h.1 h.2
    · rw [← Option.some.inj hw]
      exact below_firstBy _ h.1 h.2

theorem reads_functionId {func : Ast} (h : func.isFunction = true) :
    Reads Caught n (fun _ _ => True) (functionId func) := by
  cases func
  case name => exact .pure fun _ _ => trivial
  all_goals exact nomatch h

theorem caught_orderScalars {o : Order} {a b : Json} {e : Exc}
    (h : orderScalars o a b = .error e) : Caught e := by
  unfold orderScalars at h
  split at h
  · exact nomatch h
  · split at h
    · exact nomatch h
    · rw [← Except.error.inj h]
      rfl

mutual

theorem caught_order (o : Order) :
    ∀ (a b : Json) {e : Exc}, order o a b = .error e → Caught e
  | .arr xs, b, _, h => by
    unfold order at h
    split at h
    · rename_i heq
      obtain rfl := Json.arr.inj heq
      exact caught_orderItems o _ _ h
    · exact caught_orderScalars h
  | .null, _, _, h | .bool _, _, _, h | .int _, _, _, h | .float _, _, _, h | .str _, _, _, h
  | .obj _, _, _, h => by
    unfold order at h
    exact caught_orderScalars h

theorem caught_orderItems (o : Order) :
    ∀ (xs ys : List Json) {e : Exc}, orderItems o xs ys = .error e → Caught e
  | [], _, _, h => by
    unfold orderItems at h
    exact nomatch h
  | _ :: _, [], _, h => by
    unfold orderItems at h
    exact nomatch h
  | x :: xs, y :: ys, _, h => by
    unfold orderItems at h
    split_ifs at h
    · exact caught_orderItems o xs ys h
    · exact caught_order o x y h

end

theorem caught_contains {a b : Json} {e : Exc} (h : contains a b = .error e) : Caught e := by
  unfold contains at h
  split at h
  all_goals first
    | (cases h; done)
    | rw [← Except.error.inj h]; rfl

theorem caught_apply {op : CmpOp} {a b : Json} {e : Exc} (h : op.apply a b = .error e) :
    Caught e := by
  unfold CmpOp.apply at h
  split at h
  case h_7 => exact caught_contains h
  case h_8 =>
    cases hc : contains a b with
    | ok r => rw [hc] at h; exact nomatch h
    | error e' =>
      rw [hc] at h
      rw [← Except.error.inj h]
      exact caught_contains hc
  case h_9 => rw [← Except.error.inj h]; rfl
  all_goals first
    | cases h
    | exact caught_order _ _ _ h

end Pieces

/-! ## The reader -/

mutual

/-- **Reading an allowed expression** writes to nothing and raises what `evaluate` catches. -/
theorem read_reads {host : Host} {env : Environment} {n : ℕ} (henv : env.Below n) :
    ∀ (node : Ast), node.allowed = true → ∀ depth,
      Reads Caught n IsBelow (read host env depth node)
  | .constant literal, _, depth => by
    unfold read
    refine reads_nested depth (.bind (reads_orValue fun v hv => below_toValue hv) ?_)
    exact fun v k _ hv => reads_bounded hv
  | .name id, _, depth => by
    unfold read
    exact reads_nested depth (reads_lookup henv id)
  | .attribute value attr, h, depth => by
    rw [Ast.allowed, Bool.and_eq_true] at h
    unfold read
    refine reads_nested depth (.bind (read_reads henv value h.2 _) fun v k _ hv => ?_)
    exact reads_orValue fun w hw => below_getField hv hw
  | .subscript value slice, h, depth => by
    rw [Ast.allowed, Bool.and_eq_true] at h
    unfold read
    refine reads_nested depth (.bind (read_reads henv value h.1 _) fun v k hk hv => ?_)
    refine .bind ((read_reads henv slice h.2 _).mono_start hk) fun i m hm _ => ?_
    exact reads_orValue fun w hw => below_getItem (hv.mono hm) hw
  | .list elts, h, depth => by
    rw [Ast.allowed] at h
    unfold read
    refine reads_nested depth (.bind (readAll_reads henv elts h _) fun vs k hk hvs => ?_)
    refine .bind .alloc fun addr m hm haddr => .pure fun j hj => ?_
    exact ⟨Nat.lt_of_lt_of_le haddr.2 hj, hvs.mono (Nat.le_trans hm hj)⟩
  | .dict keys values, h, depth => by
    rw [Ast.allowed, Bool.and_eq_true] at h
    unfold read
    refine reads_nested depth (.bind (readKeys_reads henv keys h.1 _) fun ks k hk _ => ?_)
    refine .bind (P := fun _ _ => True) ?_ fun names m hm _ => ?_
    · cases asKeys ks with
      | none => exact .throw rfl
      | some names => exact .pure fun _ _ => trivial
    · refine .bind ((readAll_reads henv values h.2 _).mono_start (Nat.le_trans hk hm))
        fun vs j hj hvs => ?_
      refine .bind .alloc fun addr i hi haddr => .pure fun l hl => ?_
      refine ⟨Nat.lt_of_lt_of_le haddr.2 hl, ?_⟩
      exact below_zipMembers names (hvs.mono (Nat.le_trans hi hl))
  | .boolOp op values, h, depth => by
    rw [Ast.allowed] at h
    unfold read
    exact reads_nested depth (readBool_reads henv op values h _)
  | .unaryOp op operand, h, depth => by
    rw [Ast.allowed, Bool.and_eq_true] at h
    unfold read
    refine reads_nested depth (.bind (read_reads henv operand h.2 _) fun v k _ hv => ?_)
    exact reads_unary op hv
  | .binOp left op right, h, depth => by
    rw [Ast.allowed, Bool.and_eq_true, Bool.and_eq_true] at h
    unfold read
    refine reads_nested depth (.bind (read_reads henv left h.1.1 _) fun v k hk hv => ?_)
    refine .bind ((read_reads henv right h.2 _).mono_start hk) fun w m hm hw => ?_
    exact reads_binary op (hv.mono hm) hw
  | .compare left ops comparators, h, depth => by
    rw [Ast.allowed, Bool.and_eq_true, Bool.and_eq_true] at h
    unfold read
    refine reads_nested depth (.bind (read_reads henv left h.1.1 _) fun v k hk _ => ?_)
    exact (readCompare_reads henv ops comparators h.2 _ v).mono_start hk
  | .call func args keywords, h, depth => by
    rw [Ast.allowed, Bool.and_eq_true, Bool.and_eq_true] at h
    unfold read
    refine reads_nested depth (.bind (readAll_reads henv args h.1.2 _) fun vs k hk hvs => ?_)
    refine .bind (reads_functionId h.1.1) fun id m hm _ => ?_
    exact reads_orValue fun w hw => below_applyFunction (hvs.mono hm) hw
  | .other _, h, _ => nomatch h

theorem readAll_reads {host : Host} {env : Environment} {n : ℕ} (henv : env.Below n) :
    ∀ (nodes : List Ast), allowedAll nodes = true → ∀ depth,
      Reads Caught n AllBelow (readAll host env depth nodes)
  | [], _, _ => by
    unfold readAll
    exact .pure fun _ _ => trivial
  | node :: rest, h, depth => by
    rw [allowedAll, Bool.and_eq_true] at h
    unfold readAll
    refine .bind (read_reads henv node h.1 depth) fun v k hk hv => ?_
    refine .bind ((readAll_reads henv rest h.2 depth).mono_start hk) fun vs m hm hvs => ?_
    exact .pure fun j hj => ⟨hv.mono (Nat.le_trans hm hj), hvs.mono hj⟩

theorem readKeys_reads {host : Host} {env : Environment} {n : ℕ} (henv : env.Below n) :
    ∀ (nodes : List (Option Ast)), allowedKeys nodes = true → ∀ depth,
      Reads Caught n AllBelow (readKeys host env depth nodes)
  | [], _, _ => by
    unfold readKeys
    exact .pure fun _ _ => trivial
  | none :: _, _, _ => by
    unfold readKeys
    exact .throw rfl
  | some node :: rest, h, depth => by
    rw [allowedKeys, Bool.and_eq_true] at h
    unfold readKeys
    refine .bind (read_reads henv node h.1 depth) fun v k hk hv => ?_
    refine .bind ((readKeys_reads henv rest h.2 depth).mono_start hk) fun vs m hm hvs => ?_
    exact .pure fun j hj => ⟨hv.mono (Nat.le_trans hm hj), hvs.mono hj⟩

theorem readBool_reads {host : Host} {env : Environment} {n : ℕ} (henv : env.Below n) (op : BoolOp) :
    ∀ (nodes : List Ast), allowedAll nodes = true → ∀ depth,
      Reads Caught n IsBelow (readBool host env depth op nodes)
  | [], _, _ => by
    unfold readBool
    exact .pure fun _ _ => trivial
  | node :: rest, h, depth => by
    rw [allowedAll, Bool.and_eq_true] at h
    unfold readBool
    refine .bind (read_reads henv node h.1 depth) fun v k hk _ => ?_
    refine .bind (reads_asBool v) fun b m hm _ => .ite (fun _ => .pure fun _ _ => trivial) fun _ => ?_
    exact (readBool_reads henv op rest h.2 depth).mono_start (Nat.le_trans hk hm)

theorem readCompare_reads {host : Host} {env : Environment} {n : ℕ} (henv : env.Below n) :
    ∀ (ops : List CmpOp) (nodes : List Ast), allowedAll nodes = true → ∀ depth (left : Value),
      Reads Caught n IsBelow (readCompare host env depth left ops nodes)
  | [], _, _, _, _ => by
    unfold readCompare
    exact .pure fun _ _ => trivial
  | _ :: _, [], _, _, _ => by
    unfold readCompare
    exact .pure fun _ _ => trivial
  | op :: ops, node :: rest, h, depth, left => by
    rw [allowedAll, Bool.and_eq_true] at h
    unfold readCompare
    refine .bind (read_reads henv node h.1 depth) fun right k hk _ => ?_
    split
    · rename_i e he
      exact .throw (caught_apply he)
    · exact .pure fun _ _ => trivial
    · exact (readCompare_reads henv ops rest h.2 depth right).mono_start hk

end

/-! ## Finite data -/

mutual

/-- Every float in the value is a finite number. -/
def finite : Json → Bool
  | .float (.finite _) => true
  | .float _ => false
  | .arr items => finiteItems items
  | .obj members => finiteMembers members
  | _ => true

def finiteItems : List Json → Bool
  | [] => true
  | v :: items => finite v && finiteItems items

def finiteMembers : List (Str × Json) → Bool
  | [] => true
  | (_, v) :: members => finite v && finiteMembers members

end

mutual

/-- What has a text is finite. -/
theorem finite_of_payload (host : Host) :
    ∀ (v : Json) {text : Str}, payload host v = some text → finite v = true
  | .null, _, _ | .bool _, _, _ | .int _, _, _ | .str _, _, _ | .float (.finite _), _, _ => rfl
  | .float .nan, _, h | .float .posInf, _, h | .float .negInf, _, h => nomatch h
  | .arr items, _, h => by
    rw [payload] at h
    obtain ⟨texts, htexts, -⟩ := Option.map_eq_some_iff.mp h
    exact finiteItems_of_payload host items htexts
  | .obj members, _, h => by
    rw [payload] at h
    obtain ⟨texts, htexts, -⟩ := Option.map_eq_some_iff.mp h
    exact finiteMembers_of_payload host members htexts

theorem finiteItems_of_payload (host : Host) :
    ∀ (items : List Json) {text : Str}, payloadItems host items = some text →
      finiteItems items = true
  | [], _, _ => rfl
  | [v], _, h => by
    rw [finiteItems, finite_of_payload host v h]
    rfl
  | v :: w :: items, _, h => by
    rw [payloadItems] at h
    obtain ⟨head, hhead, h⟩ := Option.bind_eq_some_iff.mp h
    obtain ⟨tail, htail, -⟩ := Option.bind_eq_some_iff.mp h
    rw [finiteItems, finite_of_payload host v hhead, finiteItems_of_payload host _ htail]
    rfl
    nofun

theorem finiteMembers_of_payload (host : Host) :
    ∀ (members : List (Str × Json)) {text : Str}, payloadMembers host members = some text →
      finiteMembers members = true
  | [], _, _ => rfl
  | [(k, v)], _, h => by
    rw [payloadMembers] at h
    obtain ⟨text, htext, -⟩ := Option.map_eq_some_iff.mp h
    rw [finiteMembers, finite_of_payload host v htext]
    rfl
  | (k, v) :: w :: members, _, h => by
    rw [payloadMembers] at h
    obtain ⟨head, hhead, h⟩ := Option.bind_eq_some_iff.mp h
    obtain ⟨tail, htail, -⟩ := Option.bind_eq_some_iff.mp h
    rw [finiteMembers, finite_of_payload host v hhead, finiteMembers_of_payload host _ htail]
    rfl
    nofun

end

theorem finite_of_isBounded {host : Host} {v : Json} (h : isBounded host v = true) :
    finite v = true := by
  unfold isBounded at h
  rw [Bool.and_eq_true] at h
  cases hpayload : payload host v with
  | none =>
    rw [hpayload] at h
    exact nomatch h.1
  | some text => exact finite_of_payload host v hpayload

/-! ## Evaluations -/

theorem allowed_of_parseExpression {host : Host} {expression : Json} {tree : Ast}
    (h : parseExpression host expression = some tree) : tree.allowed = true := by
  unfold parseExpression at h
  obtain ⟨text, -, h⟩ := Option.bind_eq_some_iff.mp h
  split_ifs at h
  split at h
  · exact nomatch h
  · split_ifs at h with hok
    rw [← Option.some.inj h]
    exact hok.2

/-- What an evaluation returns: bounded data, in objects of its own. -/
def Evaluated (host : Host) (n : ℕ) : Value → ℕ → Prop :=
  fun v k => v.Fresh n ∧ v.Below k ∧ isBounded host v.json = true ∧
    host.fits .evaluated v.json = true

/-- **An evaluation** returns bounded data that shares no object with what was there, or
raises `ValueError`; it writes to nothing. -/
theorem evaluate_reads {host : Host} {env : Environment} {n : ℕ} (henv : env.Below n)
    (expression : Json) :
    Reads (· = Exc.value) n (Evaluated host n) (evaluate host expression env) := by
  unfold evaluate
  refine .bind (P := fun tree _ => tree.allowed = true) ?_ fun tree k hk htree => ?_
  · cases hparse : parseExpression host expression with
    | none => exact .throw rfl
    | some tree => exact .pure fun _ _ => allowed_of_parseExpression hparse
  · have hcaught : ∀ e, Caught e → e.caught = .value := fun e he => he
    refine Reads.mono_start (Reads.rethrow ?_ hcaught) hk
    refine .bind (read_reads henv tree htree 0) fun v m hm hv => ?_
    refine .bind (P := fun w j => w.Below j ∧ isBounded host w.json = true) ?_ fun w j hj hw => ?_
    · unfold bounded
      exact .ite (fun hb => .pure fun j hj => ⟨hv.mono hj, hb⟩) fun _ => .throw rfl
    · refine .ite (fun hfits => ?_) fun _ => .throw rfl
      refine Reads.mono (Reads.deepcopy hw.1) fun u i hi hu => ?_
      obtain ⟨hfresh, hbelow, hjson⟩ := hu
      exact ⟨hfresh.mono (Nat.le_trans hm hj), hbelow, hjson ▸ hw.2, hjson ▸ hfits⟩

end AI2Apps.AgentBuilder
