import AI2Apps.AgentBuilder.Evaluation
import AI2Apps.ModelSharing.Jobs

/-!
# Local data steps

`execute_local_step` works on a copy of the run's variables: a condition evaluates one
expression, an assignment evaluates its expressions one after the other, checks each
value against the variable's schema and writes it into the copy.  `ValueError`,
`KeyError` and `TypeError` make the step fail, with a second copy of the variables.

A validator that cannot decide, for a reference that leads nowhere, and arguments that
are no object raise something else, which nothing catches.

* `validateVariables`: the schemas that are accepted.
* `executeLocalStep`: a step.
* `Atomic`: what a step must do; `Decides`, `Shaped`: when it does.
* `local_steps_atomic`: both directions.
-/

namespace AI2Apps.AgentBuilder

open Faults Objects
open ModelSharing (truthy)

/-! ## Schemas of variables -/

/-- `NAME.fullmatch(name)`. -/
def isName : Str → Bool
  | [] => false
  | c :: rest => (isLetter c || c = 95) && rest.length ≤ 63 &&
    rest.all fun c => isLetter c || c = 95 || (48 ≤ c && c ≤ 57)
where
  isLetter (c : ℕ) : Bool := (65 ≤ c && c ≤ 90) || (97 ≤ c && c ≤ 122)

def typeNames : List Str := [str "string", str "number", str "integer", str "boolean", str "array",
  str "object", str "null"]

/-- `schema.get("properties", {})`. -/
def propertiesOf (schema : Json.Object) : Json.Object :=
  ((Json.lookup (str "properties") schema).bind Json.obj?).getD []

/-- What is asked of one variable. -/
def propertyAccepted (host : Host) (name : Str) (property : Json) : Bool :=
  isName name && !(str "__").isPrefixOf name &&
  match property with
  | .obj prop =>
    ((Json.lookup (str "type") prop).bind Json.str?).any (fun t => t ∈ typeNames) &&
    (Json.lookup (str "initial") prop).all (fun e => validateExpression host e []) &&
    (Json.lookup (str "default") prop).all fun v =>
      isBounded host v && host.verdict property v = .valid
  | _ => false

/-- `validate_variables` returns. -/
def validateVariables (host : Host) (schema : Json.Object) : Bool :=
  (Json.lookup (str "type") schema).any (fun t => t.str? = some (str "object")) &&
  (Json.lookup (str "properties") schema).all (fun p => p.obj?.isSome) &&
  host.checkSchema (.obj schema) &&
  (propertiesOf schema).length ≤ 64 &&
  (propertiesOf schema).all fun p => propertyAccepted host p.1 p.2

/-! ## Steps -/

inductive LocalResult where
  | condition (value : Bool)
  | assigned (changes : Value)
  | failed (error : Exc)

/-- `value[key]` of a decoded value; only an object has a text for a key. -/
def subscript (key : Str) : Json → Eval Json
  | .obj members => orThrow .key (Json.lookup key members)
  | _ => throw .type

/-- `args.get("assignments", [])`. -/
def getAssignments : Json → Eval Json
  | .obj members => pure ((Json.lookup (str "assignments") members).getD (.arr []))
  | _ => throw .attribute

/-- What `for item in value` goes through. -/
def iterated : Json → Option (List Json)
  | .arr items => some items
  | .str s => some (s.map fun c => .str [c])
  | .obj members => some (members.map fun m => .str m.1)
  | _ => none

/-- One to 32 assignments. -/
def assignmentsOf (value : Json) : Eval (List Json) :=
  if truthy value then do
    let items ← orThrow .type (iterated value)
    if 32 < items.length then throw .value else return items
  else throw .value

/-- `schema.get("properties", {}).get(name)`, for the name of a declared variable. -/
def declaration (properties : Json.Object) : Json → Eval (Str × Json)
  | .str name => (fun prop => (name, prop)) <$> orThrow .value (Json.lookup name properties)
  | .arr _ | .obj _ => throw .type
  | _ => throw .value

/-- A value that the variable's schema admits. -/
def checked (host : Host) (prop : Json) (v : Value) : Eval Value :=
  match host.verdict prop v.json with
  | .valid => pure v
  | .invalid => throw .value
  | .raises => throw .validator

/-- The variable and the value of one assignment. -/
def assignmentValue (host : Host) (properties : Json.Object) (env : Environment)
    (assignment : Json) : Eval (Str × Value) := do
  let (name, prop) ← declaration properties (← subscript (str "variable") assignment)
  let value ← evaluate host (← subscript (str "expression") assignment) env
  return (name, ← checked host prop value)

/-- The assignments, written into the copy of the variables and noted as changes. -/
def assignAll (host : Host) (properties : Json.Object) (inputs outputs : Value) :
    List Json → Value → Value → Eval (LocalResult × Value)
  | [], current, changes => do
    let current ← bounded host current
    return (.assigned changes, current)
  | assignment :: rest, current, changes => do
    let (name, value) ← assignmentValue host properties ⟨inputs, current, outputs⟩ assignment
    let current ← setItem .type current name value
    let changes ← setItem .type changes name value
    assignAll host properties inputs outputs rest current changes

/-- `step["operation"] == name`. -/
def isOperation (name : Str) (operation : Json) : Bool := operation.str? = some name

/-- What a step does to the copy of the variables. -/
def runLocal (host : Host) (step schema : Json.Object) (inputs outputs current : Value) :
    Eval (LocalResult × Value) := do
  let args := (Json.lookup (str "arguments") step).getD (.obj [])
  let operation ← orThrow .key (Json.lookup (str "operation") step)
  if isOperation (str "condition") operation then
    let value ← evaluate host (← subscript (str "expression") args) ⟨inputs, current, outputs⟩
    let value ← asBool value
    return (.condition value, current)
  else if isOperation (str "assign") operation then
    let addr ← alloc
    let assignments ← assignmentsOf (← getAssignments args)
    assignAll host (propertiesOf schema) inputs outputs assignments current (.dict addr [])
  else throw .value

/-- The exceptions that make a step fail. -/
def Exc.failsStep : Exc → Bool
  | .value | .key | .type => true
  | _ => false

/-- The handler of a step: the variables as they were, in a copy. -/
def failStep (host : Host) (vars : Value) (e : Exc) : Eval (LocalResult × Value) :=
  if e.failsStep then do
    let vars ← copyAt host .vars vars
    return (.failed e, vars)
  else throw e

/-- `execute_local_step(step, inputs, variables, outputs, schema)`. -/
def executeLocalStep (host : Host) (step : Json.Object) (inputs vars outputs : Value)
    (schema : Json.Object) : Eval (LocalResult × Value) := do
  let current ← copyAt host .vars vars
  tryCatch (runLocal host step schema inputs outputs current) (failStep host vars)

/-! ## What a step must do -/

/-- Every variable conforms to its declared schema. -/
def Conforms (host : Host) (schema : Json.Object) (vars : Json) : Prop :=
  ∃ members, vars = .obj members ∧ ∀ name prop v, Json.lookup name (propertiesOf schema) = some prop →
    Json.lookup name members = some v → host.verdict prop v = .valid

/-- The variables after a step. -/
def Left (host : Host) (schema : Json.Object) (vars : Value) : LocalResult × Value → Prop
  | (.failed _, after) => after.json = vars.json
  | (_, after) => Conforms host schema after.json

/-- **The law of a step**: it returns, the variables are what they were or conform, and no
object was written to that was there before. -/
def Atomic (host : Host) (step : Json.Object) (inputs vars outputs : Value) (schema : Json.Object)
    (h : Heap) : Prop :=
  wp (executeLocalStep host step inputs vars outputs schema)
    (fun out h' => Left host schema vars out ∧ ∀ c ∈ h'.written, c ∈ h.written ∨ h.next ≤ c)
    (fun _ _ => False) h

/-- The validator of every declared variable decides the values an expression can have. -/
def Decides (host : Host) (schema : Json.Object) : Prop :=
  ∀ name prop, Json.lookup name (propertiesOf schema) = some prop → ∀ v : Value,
    isBounded host v.json = true → host.fits .evaluated v.json = true →
      host.verdict prop v.json ≠ .raises

/-- The variables can be copied, and the arguments of an assignment step are an object. -/
def Shaped (host : Host) (step : Json.Object) (vars : Value) : Prop :=
  host.fits .vars vars.json = true ∧
  ∀ operation args, Json.lookup (str "operation") step = some operation →
    isOperation (str "assign") operation = true → Json.lookup (str "arguments") step = some args →
      args.obj?.isSome = true

/-! ## Steps whose values are decided -/

/-- The handler of a step catches the exception. -/
def Fails (e : Exc) : Prop := e.failsStep = true

theorem Conforms.setMember {host : Host} {schema : Json.Object} {members : List (Str × Value)}
    {name : Str} {prop : Json} {v : Value}
    (h : Conforms host schema (.obj (Value.jsonMembers members)))
    (hprop : Json.lookup name (propertiesOf schema) = some prop)
    (hv : host.verdict prop v.json = .valid) :
    Conforms host schema (.obj (Value.jsonMembers (Value.setMember name v members))) := by
  obtain ⟨members', hmembers, hconforms⟩ := h
  obtain rfl := Json.obj.inj hmembers
  refine ⟨_, rfl, fun k p w hp hw => ?_⟩
  rw [Value.lookup_json, Value.lookup_setMember] at hw
  by_cases hk : name = k
  · subst hk
    rw [if_pos rfl] at hw
    obtain rfl : prop = p := Option.some.inj (hprop.symm.trans hp)
    rw [← Option.some.inj hw]
    exact hv
  · rw [if_neg hk, ← Value.lookup_json] at hw
    exact hconforms k p w hp hw

section Decided

variable {host : Host} {schema : Json.Object} {inputs vars outputs : Value} {n base : ℕ}

theorem reads_orThrow {α : Type} {e : Exc} {o : Option α} (he : Fails e) :
    Reads Fails n (fun a _ => o = some a) (orThrow e o : Eval α) := by
  cases o with
  | none => exact .throw he
  | some a => exact .pure fun _ _ => rfl

theorem reads_subscript (key : Str) (v : Json) :
    Reads Fails n (fun _ _ => True) (subscript key v) := by
  cases v
  case obj members => exact (reads_orThrow (e := .key) rfl).mono fun _ _ _ _ => trivial
  all_goals exact .throw rfl

theorem reads_declaration (properties : Json.Object) (name : Json) :
    Reads Fails n (fun p _ => Json.lookup p.1 properties = some p.2)
      (declaration properties name) := by
  cases name
  case str s =>
    show Reads Fails n _ ((fun prop => (s, prop)) <$> orThrow .value (Json.lookup s properties))
    rw [← bind_pure_comp]
    exact .bind (reads_orThrow rfl) fun prop k _ hprop => .pure fun _ _ => hprop
  all_goals exact .throw rfl

theorem reads_evaluate {env : Environment} (henv : env.Below n) (expression : Json) :
    Reads Fails n (Evaluated host n) (evaluate host expression env) := by
  intro h hn
  refine wp_mono (evaluate_reads henv expression h hn) (fun _ _ hs => hs) fun e _ hs => ?_
  obtain ⟨hle, hwritten, rfl⟩ := hs
  exact ⟨hle, hwritten, rfl⟩

/-- An assignment of a decided variable. -/
theorem reads_assignmentValue (hdecides : Decides host schema) {env : Environment}
    (henv : env.Below n) (assignment : Json) :
    Reads Fails n (fun p k => p.2.Below k ∧ ∃ prop,
        Json.lookup p.1 (propertiesOf schema) = some prop ∧ host.verdict prop p.2.json = .valid)
      (assignmentValue host (propertiesOf schema) env assignment) := by
  unfold assignmentValue
  refine .bind (reads_subscript _ _) fun variable' k hk _ => ?_
  refine .bind (reads_declaration _ _) fun p m hm hp => ?_
  obtain ⟨name, prop⟩ := p
  refine .bind (reads_subscript _ _) fun expression j hj _ => ?_
  have hnj : n ≤ j := Nat.le_trans hk (Nat.le_trans hm hj)
  have henv' : env.Below j :=
    ⟨henv.inputs.mono hnj, henv.vars.mono hnj, henv.outputs.mono hnj⟩
  refine .bind (reads_evaluate henv' expression) fun v i hi hv => ?_
  obtain ⟨-, hbelow, hbounded, hfits⟩ := hv
  refine .bind (P := fun w _ => w = v ∧ host.verdict prop v.json = .valid) ?_ fun w l hl hw => ?_
  · unfold checked
    cases hverdict : host.verdict prop v.json with
    | valid => exact .pure fun _ _ => ⟨rfl, rfl⟩
    | invalid => exact .throw rfl
    | raises => exact absurd hverdict (hdecides name prop hp v hbounded hfits)
  · obtain ⟨rfl, hvalid⟩ := hw
    exact .pure fun q hq => ⟨hbelow.mono (Nat.le_trans hl hq), prop, hp, hvalid⟩

/-- **The assignments of a step** write into the copy only and leave it conforming. -/
theorem confined_assignAll (hdecides : Decides host schema) (items : List Json) :
    ∀ {n addr cell : ℕ} {members changes : List (Str × Value)},
      base ≤ addr → base ≤ cell →
      Environment.Below n ⟨inputs, .dict addr members, outputs⟩ →
      Conforms host schema (.obj (Value.jsonMembers members)) →
      Confined base Fails n (fun out _ => Left host schema vars out)
        (assignAll host (propertiesOf schema) inputs outputs items (.dict addr members)
          (.dict cell changes)) := by
  induction items with
  | nil =>
    intro n addr cell members changes _ _ henv hconforms
    unfold assignAll
    refine .bind (P := fun w _ => w = .dict addr members) ?_ fun w k _ hw => ?_
    · unfold bounded
      exact .ite (fun _ => .pure fun _ _ => rfl) fun _ => .throw rfl
    · rw [hw]
      exact .pure fun _ _ => hconforms
  | cons assignment items ih =>
    intro n addr cell members changes haddr hcell henv hconforms
    unfold assignAll
    refine .bind ((reads_assignmentValue hdecides henv assignment).confined base)
      fun p k hk hp => ?_
    obtain ⟨name, v⟩ := p
    obtain ⟨hbelow, prop, hprop, hvalid⟩ := hp
    refine .bind (.setItem haddr) fun d m hm hd => ?_
    refine .bind (.setItem hcell) fun d' j hj hd' => ?_
    subst hd hd'
    have hnj : n ≤ j := Nat.le_trans hk (Nat.le_trans hm hj)
    refine ih haddr hcell ⟨henv.inputs.mono hnj, ⟨Nat.lt_of_lt_of_le henv.vars.1 hnj, ?_⟩,
      henv.outputs.mono hnj⟩ (hconforms.setMember hprop hvalid)
    exact (henv.vars.2.mono hnj).setMember (hbelow.mono (Nat.le_trans hm hj))

theorem reads_assignmentsOf (v : Json) : Reads Fails n (fun _ _ => True) (assignmentsOf v) := by
  unfold assignmentsOf
  refine .ite (fun _ => ?_) fun _ => .throw rfl
  refine .bind (reads_orThrow (e := .type) rfl) fun items k _ _ => ?_
  exact .ite (fun _ => .throw rfl) fun _ => .pure fun _ _ => trivial

/-- What a step of a decided schema does to the copy of the variables. -/
theorem confined_runLocal (hdecides : Decides host schema) {step : Json.Object}
    (hshaped : Shaped host step vars) {addr : ℕ} {members : List (Str × Value)}
    (haddr : base ≤ addr) (hbase : base ≤ n)
    (henv : Environment.Below n ⟨inputs, .dict addr members, outputs⟩)
    (hconforms : Conforms host schema (.obj (Value.jsonMembers members))) :
    Confined base Fails n (fun out _ => Left host schema vars out)
      (runLocal host step schema inputs outputs (.dict addr members)) := by
  unfold runLocal
  refine .bind ((reads_orThrow (e := .key) rfl).confined base) fun operation k hk hoperation => ?_
  refine .ite (fun _ => ?_) fun _ => .ite (fun hassign => ?_) fun _ => .throw rfl
  · refine .bind ((reads_subscript _ _).confined base) fun expression m hm _ => ?_
    have hnm : n ≤ m := Nat.le_trans hk hm
    have henv' : Environment.Below m ⟨inputs, .dict addr members, outputs⟩ :=
      ⟨henv.inputs.mono hnm, henv.vars.mono hnm, henv.outputs.mono hnm⟩
    refine .bind ((reads_evaluate henv' expression).confined base) fun v j _ _ => ?_
    refine .bind (P := fun _ _ => True) (Reads.confined ?_ base) fun b i _ _ => ?_
    · cases v
      case bool => exact .pure fun _ _ => trivial
      all_goals exact .throw rfl
    · exact .pure fun _ _ => by cases b <;> exact hconforms
  · refine .bind (Reads.alloc.confined base) fun cell m hm hcell => ?_
    refine .bind (P := fun _ _ => True) (Reads.confined ?_ base) fun assignments j hj _ => ?_
    · cases hargs : Json.lookup (str "arguments") step with
      | none => exact .pure fun _ _ => trivial
      | some args =>
        have hobj := hshaped.2 operation args hoperation hassign hargs
        cases args
        case obj => exact .pure fun _ _ => trivial
        all_goals exact nomatch hobj
    · refine .bind ((reads_assignmentsOf assignments).confined base) fun items i hi _ => ?_
      have hni : n ≤ i := Nat.le_trans hk (Nat.le_trans hm (Nat.le_trans hj hi))
      exact confined_assignAll hdecides items haddr (Nat.le_trans hbase (Nat.le_trans hk hcell.1))
        ⟨henv.inputs.mono hni, henv.vars.mono hni, henv.outputs.mono hni⟩ hconforms

/-- **A step is atomic** where its variables are decided and it is shaped. -/
theorem atomic_of_shaped (hdecides : Decides host schema) {step : Json.Object} {h : Heap}
    (hshaped : Shaped host step vars) (henv : Environment.Below h.next ⟨inputs, vars, outputs⟩)
    (hconforms : Conforms host schema vars.json) :
    Atomic host step inputs vars outputs schema h := by
  have hcopy : ∀ {expected : Exc → Prop} {n : ℕ}, h.next ≤ n → Reads expected n
      (fun w k => w.Fresh n ∧ w.Below k ∧ w.json = vars.json) (copyAt host .vars vars) := by
    intro expected n hn
    unfold copyAt
    rw [if_pos hshaped.1]
    exact .deepcopy (henv.vars.mono hn)
  suffices hconfined : Confined h.next (fun _ => False) h.next
      (fun out _ => Left host schema vars out)
      (executeLocalStep host step inputs vars outputs schema) by
    refine wp_mono (hconfined h (Nat.le_refl _)) (fun _ _ hs => ?_) fun _ _ hs => hs.2.2
    exact ⟨hs.2.2, hs.2.1⟩
  unfold executeLocalStep
  refine .bind ((hcopy (Nat.le_refl _)).confined _) fun current k hk hcurrent => ?_
  obtain ⟨hfresh, hbelow, hjson⟩ := hcurrent
  rw [← hjson] at hconforms
  obtain ⟨addr, members, rfl⟩ : ∃ addr members, current = .dict addr members := by
    obtain ⟨members, hmembers, -⟩ := hconforms
    cases current
    case dict addr members => exact ⟨addr, members, rfl⟩
    all_goals exact nomatch hmembers
  refine .tryCatch (confined_runLocal hdecides hshaped hfresh.1 hk
    ⟨henv.inputs.mono hk, hbelow, henv.outputs.mono hk⟩ hconforms) fun e he => ?_
  have hfails : e.failsStep = true := he
  unfold failStep
  rw [if_pos hfails]
  exact .bind ((hcopy hk).confined _) fun w m _ hw => .pure fun _ _ => hw.2.2

end Decided

/-! ## Steps that raise -/

section Raises

variable {host : Host} {step schema : Json.Object} {inputs vars outputs : Value} {h : Heap}

/-- Variables too deep to be copied. -/
theorem not_atomic_of_deep (hfits : ¬ host.fits .vars vars.json = true) :
    ¬ Atomic host step inputs vars outputs schema h := by
  unfold Atomic executeLocalStep copyAt
  rw [if_neg hfits]
  exact id

/-- The arguments of an assignment step are no object: `[].get` is an `AttributeError`. -/
theorem not_atomic_of_arguments {operation args : Json}
    (hoperation : Json.lookup (str "operation") step = some operation)
    (hassign : isOperation (str "assign") operation = true)
    (hargs : Json.lookup (str "arguments") step = some args) (hobj : ¬ args.obj?.isSome = true) :
    ¬ Atomic host step inputs vars outputs schema h := by
  by_cases hfits : host.fits .vars vars.json = true
  · have hcondition : ¬ isOperation (str "condition") operation = true := by
      intro hcondition
      unfold isOperation at hassign hcondition
      rw [decide_eq_true_eq] at hassign hcondition
      exact absurd (hassign.symm.trans hcondition) (by decide)
    unfold Atomic executeLocalStep copyAt
    rw [if_pos hfits, wp_bind]
    show ¬ wp (tryCatch _ _) _ _ _
    rw [wp_tryCatch]
    unfold runLocal
    rw [hoperation, hargs, wp_bind, wp_orThrow_some, if_neg hcondition, if_pos hassign, wp_bind]
    show ¬ wp (_ >>= _) _ _ _
    rw [wp_bind]
    cases args
    case obj members => exact absurd rfl hobj
    all_goals exact id
  · exact not_atomic_of_deep hfits

theorem not_atomic_of_not_shaped (hshaped : ¬ Shaped host step vars) :
    ¬ Atomic host step inputs vars outputs schema h := by
  by_cases hfits : host.fits .vars vars.json = true
  · intro hatomic
    refine hshaped ⟨hfits, fun operation args hoperation hassign hargs => ?_⟩
    by_contra hobj
    exact not_atomic_of_arguments hoperation hassign hargs hobj hatomic
  · exact not_atomic_of_deep hfits

end Raises

/-- The step that assigns `input.x` to a variable. -/
def assignInput (name : Str) : Json.Object :=
  [(str "operation", .str (str "assign")), (str "arguments", .obj [(str "assignments", .arr [
    .obj [(str "variable", .str name), (str "expression", .str (str "input.x"))]])])]

/-- How the language parses `input.x`. -/
def inputX : Ast := .attribute (.name (str "input")) (str "x")

section Undecided

variable {host : Host} {schema : Json.Object} {h : Heap}

/-- `input.x` is a copy of what it reads. -/
theorem evaluate_inputX (hparse : host.parse (str "input.x") = .ok inputX) {addr : ℕ} {v : Value}
    {vars outputs : Value} (hbounded : isBounded host v.json = true)
    (hfits : host.fits .evaluated v.json = true) :
    wp (evaluate host (.str (str "input.x")) ⟨.dict addr [(str "x", v)], vars, outputs⟩)
      (fun w _ => w.json = v.json) (fun _ _ => False) h := by
  have htree : parseExpression host (.str (str "input.x")) = some inputX := by
    unfold parseExpression
    show Option.bind (some (str "input.x")) _ = _
    rw [Option.bind_some, if_neg (by decide), hparse]
    exact if_pos (by decide)
  unfold evaluate
  rw [htree, wp_bind, wp_orThrow_some, wp_tryCatch, wp_bind]
  unfold inputX
  rw [read, nested, if_neg (by decide), wp_bind, read, nested, if_neg (by decide)]
  show wp (pure _) _ _ _
  rw [wp_pure]
  show wp (pure v) _ _ _
  rw [wp_pure, wp_bind, bounded, if_pos hbounded, wp_pure, copyAt, if_pos hfits]
  exact Value.json_shift _ _

theorem assignmentValue_raises (hparse : host.parse (str "input.x") = .ok inputX) {name : Str}
    {prop : Json} {v : Value} (hprop : Json.lookup name (propertiesOf schema) = some prop)
    (hbounded : isBounded host v.json = true) (hfits : host.fits .evaluated v.json = true)
    (hraises : host.verdict prop v.json = .raises) (addr : ℕ) (vars outputs : Value) :
    wp (assignmentValue host (propertiesOf schema) ⟨.dict addr [(str "x", v)], vars, outputs⟩
        (.obj [(str "variable", .str name), (str "expression", .str (str "input.x"))]))
      (fun _ _ => False) (fun e _ => e = .validator) h := by
  unfold assignmentValue
  rw [wp_bind]
  show wp (_ >>= _) _ _ _
  rw [wp_bind]
  show wp ((fun prop => (name, prop)) <$> orThrow Exc.value
    (Json.lookup name (propertiesOf schema))) _ _ _
  rw [wp_map, hprop, wp_orThrow_some, wp_bind]
  show wp (_ >>= _) _ _ _
  rw [wp_bind]
  refine wp_mono (evaluate_inputX hparse hbounded hfits) (fun w s hw => ?_) fun _ _ hs => hs.elim
  rw [wp_bind, checked, hw, hraises]
  exact rfl

/-- **A variable whose validator raises** takes the exception out of the step. -/
theorem not_atomic_of_undecided (hparse : host.parse (str "input.x") = .ok inputX) {name : Str}
    {prop : Json} {v : Value} (hprop : Json.lookup name (propertiesOf schema) = some prop)
    (hbounded : isBounded host v.json = true) (hfits : host.fits .evaluated v.json = true)
    (hraises : host.verdict prop v.json = .raises) (inputs : ℕ) (vars outputs : Value) :
    ¬ Atomic host (assignInput name) (.dict inputs [(str "x", v)]) vars outputs schema h := by
  by_cases hfits' : host.fits .vars vars.json = true
  · intro hatomic
    have hescapes : wp (executeLocalStep host (assignInput name) (.dict inputs [(str "x", v)])
        vars outputs schema) (fun _ _ => False) (fun e _ => e = .validator) h := by
      unfold executeLocalStep copyAt
      rw [wp_bind, if_pos hfits']
      show wp (tryCatch (runLocal host (assignInput name) schema (.dict inputs [(str "x", v)])
        outputs (vars.shift h.next)) _) _ _ _
      rw [wp_tryCatch]
      unfold runLocal assignInput
      show wp (assignAll host (propertiesOf schema) _ _ [_] _ _) _ _ _
      unfold assignAll
      rw [wp_bind]
      refine wp_mono (assignmentValue_raises hparse hprop hbounded hfits hraises _ _ _)
        (fun _ _ hs => hs.elim) fun e s he => ?_
      rw [he]
      exact rfl
    exact wp_elim (wp_and hatomic hescapes) (fun _ _ hs => hs.2) fun _ _ hs => hs.1
  · exact not_atomic_of_deep hfits'

end Undecided

/-! ## Both laws -/

/-- **An evaluation is contained**: it returns finite data of at most `maxBytes` bytes in
objects of its own, or raises `ValueError`, and it writes to nothing. -/
def Contained (host : Host) (expression : Json) (env : Environment) (h : Heap) : Prop :=
  wp (evaluate host expression env)
    (fun v h' => v.Fresh h.next ∧ finite v.json = true ∧ (∃ text bytes, payload host v.json = some text ∧
      Utf8.encode text = some bytes ∧ bytes.length ≤ maxBytes) ∧ h'.written = h.written)
    (fun e h' => e = .value ∧ h'.written = h.written) h

theorem contained {host : Host} {env : Environment} {h : Heap} (henv : env.Below h.next)
    (expression : Json) : Contained host expression env h := by
  refine wp_mono (evaluate_reads henv expression h (Nat.le_refl _)) (fun v s hs => ?_)
    fun _ _ hs => ⟨hs.2.2, hs.2.1⟩
  obtain ⟨-, hwritten, hfresh, -, hbounded, -⟩ := hs
  refine ⟨hfresh, finite_of_isBounded hbounded, ?_, hwritten⟩
  unfold isBounded at hbounded
  rw [Bool.and_eq_true] at hbounded
  cases htext : (payload host v.json).bind Utf8.encode with
  | none =>
    rw [htext] at hbounded
    exact nomatch hbounded.1
  | some bytes =>
    rw [htext] at hbounded
    obtain ⟨text, hpayload, hbytes⟩ := Option.bind_eq_some_iff.mp htext
    exact ⟨text, bytes, hpayload, hbytes, by simpa using hbounded.1⟩

/-- **Evaluations are contained, and steps are atomic exactly when they are shaped, where the
validator decides** the values of every declared variable, and only there. -/
theorem local_steps_atomic (host : Host) (schema : Json.Object)
    (_haccepted : validateVariables host schema = true)
    (hparse : host.parse (str "input.x") = .ok inputX)
    (hempty : host.fits .vars (.obj []) = true) :
    (∀ expression env h, env.Below h.next → Contained host expression env h) ∧
    ((∀ step inputs vars outputs h, Environment.Below h.next ⟨inputs, vars, outputs⟩ →
        Conforms host schema vars.json →
        (Atomic host step inputs vars outputs schema h ↔ Shaped host step vars)) ↔
      Decides host schema) := by
  refine ⟨fun expression env h henv => contained henv expression, fun hsteps => ?_, fun hdecides => ?_⟩
  · intro name prop hprop v hbounded hfits hraises
    obtain ⟨n, hn⟩ : ∃ n, v.Below n := v.exists_below
    have hbelow : Environment.Below (n + 1)
        ⟨.dict 0 [(str "x", v)], .dict 0 [], .dict 0 []⟩ :=
      ⟨⟨Nat.succ_pos n, hn.mono (Nat.le_succ n), trivial⟩, ⟨Nat.succ_pos n, trivial⟩,
        ⟨Nat.succ_pos n, trivial⟩⟩
    refine not_atomic_of_undecided hparse hprop hbounded hfits hraises 0 (.dict 0 []) (.dict 0 [])
      ((hsteps (assignInput name) _ _ _ ⟨n + 1, []⟩ hbelow ⟨[], rfl, nofun⟩).mpr ⟨hempty, ?_⟩)
    intro operation args _ _ hargs
    rw [← Option.some.inj hargs]
    rfl
  · intro step inputs vars outputs h henv hconforms
    refine ⟨fun hatomic => ?_, fun hshaped => atomic_of_shaped hdecides hshaped henv hconforms⟩
    by_contra hshaped
    exact not_atomic_of_not_shaped hshaped hatomic

/-! ## A reference that leads nowhere -/

/-- A host with room for every copy that parses `input.x`, and the given validator. -/
def sampleHost (verdict : Json → Json → Verdict) : Host where
  parse text := if text = str "input.x" then .ok inputX else .error .grammar
  floatText _ := str "0.0"
  floatArith _ _ _ := .error .overflow
  fits _ _ := true
  checkSchema _ := true
  verdict := verdict

/-- One variable `v` of the given schema. -/
def oneVariable (prop : Json.Object) : Json.Object :=
  [(str "type", .str (str "object")), (str "properties", .obj [(str "v", .obj prop)])]

/-- A schema whose items refer to nothing is accepted; a step that assigns a list to the
variable, which is the empty list so far, raises what the validator raises. -/
theorem dangling_reference_raises :
    let prop : Json.Object := [(str "type", .str (str "array")),
      (str "items", .obj [(str "$ref", .str (str "#/missing"))])]
    let host := sampleHost fun _ v =>
      match v with
      | .arr [] => .valid
      | .arr _ => .raises
      | _ => .invalid
    let vars : Value := .dict 0 [(str "v", .list 1 [])]
    validateVariables host (oneVariable prop) = true ∧ Conforms host (oneVariable prop) vars.json ∧
    ¬ Atomic host (assignInput (str "v")) (.dict 2 [(str "x", .list 3 [.str (str "a")])]) vars
      (.dict 4 []) (oneVariable prop) ⟨5, []⟩ := by
  refine ⟨by decide +kernel, ⟨_, rfl, fun name p v _ hv => ?_⟩, ?_⟩
  · have hempty : (if str "v" = name then some (Json.arr []) else none) = some v := hv
    split_ifs at hempty
    rw [← Option.some.inj hempty]
    rfl
  · exact not_atomic_of_undecided rfl rfl (by decide +kernel) rfl rfl 2 _ _

/-- The law of a step on an integer variable. -/
theorem local_steps_atomic_integer :
    Atomic (sampleHost fun _ v => if v.int?.isSome then .valid else .invalid) (assignInput (str "v"))
      (.dict 0 [(str "x", .int 5)]) (.dict 1 []) (.dict 2 [])
      (oneVariable [(str "type", .str (str "integer"))]) ⟨3, []⟩ := by
  have hlaws := local_steps_atomic
    (sampleHost fun _ v => if v.int?.isSome then .valid else .invalid)
    (oneVariable [(str "type", .str (str "integer"))]) (by decide +kernel) rfl rfl
  have hbelow : Environment.Below 3 ⟨.dict 0 [(str "x", .int 5)], .dict 1 [], .dict 2 []⟩ :=
    ⟨⟨Nat.succ_pos 2, trivial, trivial⟩, ⟨Nat.lt_succ_of_lt (Nat.lt_succ_self 1), trivial⟩,
      ⟨Nat.lt_succ_self 2, trivial⟩⟩
  refine (hlaws.2.mpr ?_ (assignInput (str "v")) _ _ _ ⟨3, []⟩ hbelow ⟨[], rfl, nofun⟩).mpr
    ⟨rfl, ?_⟩
  · intro name prop _ v _ _ hraises
    have hdecided : (if v.json.int?.isSome then Verdict.valid else .invalid) = .raises := hraises
    split_ifs at hdecided
  · intro operation args _ _ hargs
    rw [← Option.some.inj hargs]
    rfl

end AI2Apps.AgentBuilder
