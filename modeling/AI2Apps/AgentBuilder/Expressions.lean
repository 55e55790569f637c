import AI2Apps.Lib.JsonText
import AI2Apps.Lib.Objects
import AI2Apps.Lib.Utf8

/-!
# Bounded JSON expressions

The evaluator of `agent_builder/variables.py`: an expression is parsed as one of the
language's own, its nodes are checked against a list of allowed ones, and a recursive
reader computes its value over the inputs, the variables and the outputs of earlier
steps.

The language's parser, its floating-point arithmetic, its printer of floats, the depth
its stack has room for and the JSON Schema validator are parameters (`Host`); memory
running out is left out.

* `Ast`: an expression, with the constructs the module refuses.
* `parseExpression`, `validateExpression`: what is accepted.
* `bounded`: finite JSON data of a bounded size.
* `read`, `evaluate`: the value of an expression.
-/

namespace AI2Apps.AgentBuilder

open Faults Objects

/-! ## Expressions of the language -/

/-- The value of a literal. -/
inductive Literal where
  | null
  | bool (b : Bool)
  | int (i : ℤ)
  | float (f : FloatVal)
  | str (s : Str)
  /-- Bytes, a complex number or an ellipsis. -/
  | other

inductive BoolOp where
  | and
  | or
  deriving DecidableEq

inductive UnaryOp where
  | not
  | neg
  | pos
  | invert
  deriving DecidableEq

inductive BinOp where
  | add
  | sub
  | mult
  | div
  | floorDiv
  | mod
  /-- A power, a shift, a bitwise operation or a matrix product. -/
  | other
  deriving DecidableEq

inductive CmpOp where
  | eq
  | notEq
  | lt
  | ltE
  | gt
  | gtE
  | isIn
  | notIn
  /-- `is` or `is not`. -/
  | identity
  deriving DecidableEq

/-- A parsed expression. -/
inductive Ast where
  | constant (value : Literal)
  | name (id : Str)
  | attribute (value : Ast) (attr : Str)
  | subscript (value slice : Ast)
  | list (elts : List Ast)
  /-- A key that is absent is an unpacked mapping. -/
  | dict (keys : List (Option Ast)) (values : List Ast)
  | boolOp (op : BoolOp) (values : List Ast)
  | unaryOp (op : UnaryOp) (operand : Ast)
  | binOp (left : Ast) (op : BinOp) (right : Ast)
  | compare (left : Ast) (ops : List CmpOp) (comparators : List Ast)
  | call (func : Ast) (args keywords : List Ast)
  /-- Any other construct. -/
  | other (children : List Ast)

inductive Exc where
  | value
  | type
  | key
  | index
  | zeroDivision
  | overflow
  | recursion
  | attribute
  /-- What a validator raises that is no `ValidationError`. -/
  | validator
  deriving DecidableEq

/-- How `ast.parse` fails. -/
inductive ParseFailure where
  | grammar
  | recursion
  | value
  deriving DecidableEq

/-- How an arithmetic operation on numbers fails. -/
inductive ArithFailure where
  | zeroDivision
  | overflow
  deriving DecidableEq

def ArithFailure.exc : ArithFailure → Exc
  | .zeroDivision => .zeroDivision
  | .overflow => .overflow

inductive Verdict where
  | valid
  | invalid
  | raises
  deriving DecidableEq

/-- Where a value is copied. -/
inductive CopySite where
  | evaluated
  | vars
  deriving DecidableEq

structure Host where
  /-- `ast.parse(expression, mode="eval")`. -/
  parse : Str → Except ParseFailure Ast
  /-- `repr` of a finite float. -/
  floatText : FloatVal → Str
  /-- An operation on two numbers whose result is a float. -/
  floatArith : BinOp → Json → Json → Except ArithFailure FloatVal
  /-- The stack has room for the copy. -/
  fits : CopySite → Json → Bool
  /-- `Draft202012Validator.check_schema`. -/
  checkSchema : Json → Bool
  /-- `Draft202012Validator(schema).validate(value)`. -/
  verdict : Json → Json → Verdict

abbrev Eval := EStateM Exc Heap

/-! ## Finite data of a bounded size -/

def maxBytes : ℕ := 262144

def maxItems : ℕ := 10000

mutual

/-- `json.dumps(value, ensure_ascii=False, allow_nan=False)`; an integer of more than 4300
digits has no text. -/
def payload (host : Host) : Json → Option Str
  | .null => some (str "null")
  | .bool true => some (str "true")
  | .bool false => some (str "false")
  | .int i =>
    if (JsonText.natText i.natAbs).length ≤ 4300 then some (JsonText.intText i) else none
  | .float (.finite q) => some (host.floatText (.finite q))
  | .float _ => none
  | .str s => some (JsonText.quote s)
  | .arr items => (payloadItems host items).map fun texts => 91 :: texts ++ [93]
  | .obj members => (payloadMembers host members).map fun texts => 123 :: texts ++ [125]

def payloadItems (host : Host) : List Json → Option Str
  | [] => some []
  | [v] => payload host v
  | v :: items => do
    let head ← payload host v
    let tail ← payloadItems host items
    return head ++ str ", " ++ tail

def payloadMembers (host : Host) : List (Str × Json) → Option Str
  | [] => some []
  | [(k, v)] => (payload host v).map fun text => JsonText.quote k ++ str ": " ++ text
  | (k, v) :: members => do
    let head ← payload host v
    let tail ← payloadMembers host members
    return JsonText.quote k ++ str ": " ++ head ++ str ", " ++ tail

end

/-- An integer of more than 256 bits is refused where it is the whole value. -/
def intFits : Json → Bool
  | .int i => i.natAbs < 2 ^ 256
  | _ => true

/-- What `bounded` returns. -/
def isBounded (host : Host) (v : Json) : Bool :=
  ((payload host v).bind Utf8.encode).any (fun bytes => bytes.length ≤ maxBytes) && intFits v

def bounded (host : Host) (v : Value) : Eval Value :=
  if isBounded host v.json then pure v else throw .value

/-! ## What is accepted -/

def functionNames : List Str := [str "len", str "length", str "min", str "max", str "abs"]

def expressionNames : List Str :=
  [str "input", str "vars", str "steps", str "true", str "false", str "null"] ++ functionNames

mutual

/-- The nodes `ast.walk` yields, contexts and operators among them. -/
def Ast.nodes : Ast → ℕ
  | .constant _ => 1
  | .name _ => 2
  | .attribute value _ => 2 + value.nodes
  | .subscript value slice => 2 + value.nodes + slice.nodes
  | .list elts => 2 + nodesOf elts
  | .dict keys values => 1 + nodesOfKeys keys + nodesOf values
  | .boolOp _ values => 2 + nodesOf values
  | .unaryOp _ operand => 2 + operand.nodes
  | .binOp left _ right => 2 + left.nodes + right.nodes
  | .compare left ops comparators => 1 + left.nodes + ops.length + nodesOf comparators
  | .call func args keywords => 1 + func.nodes + nodesOf args + keywords.length + nodesOf keywords
  | .other children => 1 + nodesOf children

def nodesOf : List Ast → ℕ
  | [] => 0
  | n :: rest => n.nodes + nodesOf rest

def nodesOfKeys : List (Option Ast) → ℕ
  | [] => 0
  | none :: rest => nodesOfKeys rest
  | some n :: rest => n.nodes + nodesOfKeys rest

end

/-- A literal of JSON data. -/
def Literal.allowed : Literal → Bool
  | .float (.finite _) => true
  | .float _ => false
  | .other => false
  | _ => true

/-- The function of a call. -/
def Ast.isFunction : Ast → Bool
  | .name id => id ∈ functionNames
  | _ => false

mutual

/-- Every node is of an allowed kind. -/
def Ast.allowed : Ast → Bool
  | .constant value => value.allowed
  | .name id => id ∈ expressionNames
  | .attribute value attr => !(str "__").isPrefixOf attr && value.allowed
  | .subscript value slice => value.allowed && slice.allowed
  | .list elts => allowedAll elts
  | .dict keys values => allowedKeys keys && allowedAll values
  | .boolOp _ values => allowedAll values
  | .unaryOp op operand => op ≠ .invert && operand.allowed
  | .binOp left op right => left.allowed && op ≠ .other && right.allowed
  | .compare left ops comparators =>
    left.allowed && ops.all (fun op => op ≠ .identity) && allowedAll comparators
  | .call func args keywords => func.isFunction && allowedAll args && keywords.isEmpty
  | .other _ => false

def allowedAll : List Ast → Bool
  | [] => true
  | n :: rest => n.allowed && allowedAll rest

def allowedKeys : List (Option Ast) → Bool
  | [] => true
  | none :: rest => allowedKeys rest
  | some n :: rest => n.allowed && allowedKeys rest

end

/-- `parse_expression`; whatever is wrong with the expression is a `ValueError`. -/
def parseExpression (host : Host) (expression : Json) : Option Ast := do
  let text ← expression.str?
  if TextOrder.strip text = [] ∨ 4000 < text.length then none
  else
    match host.parse text with
    | .error _ => none
    | .ok tree => if tree.nodes + 1 ≤ 128 ∧ tree.allowed then some tree else none

/-- A literal that names a variable. -/
def Literal.declared (vars : List Str) : Literal → Bool
  | .str s => s ∈ vars
  | _ => false

/-- A value read from `vars` by a fixed key. -/
def Ast.declaredKey (vars : List Str) : Ast → Ast → Bool
  | .name id, .constant key => id ≠ str "vars" || key.declared vars
  | _, _ => true

def Ast.declaredAttr (vars : List Str) (attr : Str) : Ast → Bool
  | .name id => id ≠ str "vars" || attr ∈ vars
  | _ => true

mutual

/-- Only declared variables are named. -/
def Ast.declared (vars : List Str) : Ast → Bool
  | .constant _ | .name _ => true
  | .attribute value attr => value.declaredAttr vars attr && value.declared vars
  | .subscript value slice =>
    value.declaredKey vars slice && value.declared vars && slice.declared vars
  | .list elts => declaredAll vars elts
  | .dict keys values => declaredKeys vars keys && declaredAll vars values
  | .boolOp _ values => declaredAll vars values
  | .unaryOp _ operand => operand.declared vars
  | .binOp left _ right => left.declared vars && right.declared vars
  | .compare left _ comparators => left.declared vars && declaredAll vars comparators
  | .call func args keywords =>
    func.declared vars && declaredAll vars args && declaredAll vars keywords
  | .other children => declaredAll vars children

def declaredAll (vars : List Str) : List Ast → Bool
  | [] => true
  | n :: rest => n.declared vars && declaredAll vars rest

def declaredKeys (vars : List Str) : List (Option Ast) → Bool
  | [] => true
  | none :: rest => declaredKeys vars rest
  | some n :: rest => n.declared vars && declaredKeys vars rest

end

/-- `validate_expression(expression, variables)`. -/
def validateExpression (host : Host) (expression : Json) (vars : List Str) : Bool :=
  (parseExpression host expression).any fun tree => tree.declared vars

/-! ## Comparisons -/

inductive Order where
  | lt
  | le
  | gt
  | ge
  deriving DecidableEq

def Order.ofNums : Order → FloatVal → FloatVal → Bool
  | .lt, a, b => floatLt a b
  | .le, a, b => floatLt a b || floatEq a b
  | .gt, a, b => floatLt b a
  | .ge, a, b => floatLt b a || floatEq a b

def Order.ofTexts : Order → Str → Str → Bool
  | .lt, a, b => a < b
  | .le, a, b => a < b || a = b
  | .gt, a, b => b < a
  | .ge, a, b => b < a || a = b

def Order.ofLengths : Order → ℕ → ℕ → Bool
  | .lt, a, b => a < b
  | .le, a, b => a ≤ b
  | .gt, a, b => b < a
  | .ge, a, b => b ≤ a

/-- Two values that are no lists: numbers and texts have an order. -/
def orderScalars (o : Order) : Json → Json → Except Exc Bool
  | .str a, .str b => .ok (o.ofTexts a b)
  | a, b =>
    match a.num?, b.num? with
    | some x, some y => .ok (o.ofNums x y)
    | _, _ => .error .type

mutual

/-- `a < b` and its like. -/
def order (o : Order) : Json → Json → Except Exc Bool
  | .arr xs, .arr ys => orderItems o xs ys
  | a, b => orderScalars o a b

/-- Lists compare at the first item in which they differ. -/
def orderItems (o : Order) : List Json → List Json → Except Exc Bool
  | [], ys => .ok (o.ofLengths 0 ys.length)
  | x :: xs, [] => .ok (o.ofLengths (x :: xs).length 0)
  | x :: xs, y :: ys => if x.pyEq y then orderItems o xs ys else order o x y

end

/-- `a in b`. -/
def contains : Json → Json → Except Exc Bool
  | .str a, .str b => .ok (a <:+: b)
  | a, .arr items => .ok (items.any fun item => a.pyEq item)
  | .str a, .obj members => .ok (Json.lookup a members).isSome
  | .arr _, .obj _ | .obj _, .obj _ => .error .type
  | _, .obj _ => .ok false
  | _, _ => .error .type

/-- `COMPARE[type(op)](left, right)`. -/
def CmpOp.apply : CmpOp → Json → Json → Except Exc Bool
  | .eq, a, b => .ok (a.pyEq b)
  | .notEq, a, b => .ok (!a.pyEq b)
  | .lt, a, b => order .lt a b
  | .ltE, a, b => order .le a b
  | .gt, a, b => order .gt a b
  | .gtE, a, b => order .ge a b
  | .isIn, a, b => contains a b
  | .notIn, a, b => (contains a b).map not
  | .identity, _, _ => .error .key

/-! ## Arithmetic -/

/-- `type(value) in (int, float)`. -/
def isNumber : Value → Bool
  | .int _ | .float _ => true
  | _ => false

/-- `BINARY[type(op)](left, right)` on numbers: exact on integers, but for a division. -/
def BinOp.arith (host : Host) (op : BinOp) (left right : Value) : Except Exc Value :=
  match op, left, right with
  | .other, _, _ => .error .key
  | .add, .int a, .int b => .ok (.int (a + b))
  | .sub, .int a, .int b => .ok (.int (a - b))
  | .mult, .int a, .int b => .ok (.int (a * b))
  | .floorDiv, .int a, .int b => if b = 0 then .error .zeroDivision else .ok (.int (a.fdiv b))
  | .mod, .int a, .int b => if b = 0 then .error .zeroDivision else .ok (.int (a.fmod b))
  | op, left, right =>
    match host.floatArith op left.json right.json with
    | .ok f => .ok (.float f)
    | .error e => .error e.exc

/-- `-value`. -/
def floatNeg : FloatVal → FloatVal
  | .finite q => .finite (-q)
  | .posInf => .negInf
  | .negInf => .posInf
  | .nan => .nan

def negate : Value → Value
  | .int i => .int (-i)
  | .float f => .float (floatNeg f)
  | v => v

def absolute : Value → Value
  | .int i => .int i.natAbs
  | .float (.finite q) => .float (.finite |q|)
  | .float .negInf => .float .posInf
  | v => v

/-- The first of the values that no later one is before. -/
def firstBy (before : FloatVal → FloatVal → Bool) (best : Value) : List Value → Value
  | [] => best
  | v :: rest =>
    match v.json.num?, best.json.num? with
    | some x, some y => firstBy before (if before x y then v else best) rest
    | _, _ => firstBy before best rest

/-- `left + right` of two texts or two lists. -/
def concatenate : Value → Value → Option (Eval Value)
  | .str a, .str b => some (if maxItems < a.length + b.length then throw .value else pure (.str (a ++ b)))
  | .list _ xs, .list _ ys => some (
    if maxItems < xs.length + ys.length then throw .value
    else do
      let addr ← alloc
      return .list addr (xs ++ ys))
  | _, _ => none

/-- A binary operation on two values. -/
def binary (host : Host) (op : BinOp) (left right : Value) : Eval Value :=
  match if op = .add then concatenate left right else none with
  | some joined => do bounded host (← joined)
  | none =>
    if isNumber left && isNumber right then
      match op.arith host left right with
      | .ok v => bounded host v
      | .error e => throw e
    else throw .value

/-! ## Reading -/

/-- The three names of the environment. -/
structure Environment where
  inputs : Value
  vars : Value
  outputs : Value

def Environment.lookup (env : Environment) (id : Str) : Eval Value :=
  if id = str "input" then pure env.inputs
  else if id = str "vars" then pure env.vars
  else if id = str "steps" then pure env.outputs
  else if id = str "true" then pure (.bool true)
  else if id = str "false" then pure (.bool false)
  else if id = str "null" then pure .null
  else throw .value

/-- A value, or a `ValueError`. -/
def orValue : Option Value → Eval Value := orThrow .value

def Literal.toValue : Literal → Option Value
  | .null => some .null
  | .bool b => some (.bool b)
  | .int i => some (.int i)
  | .float f => some (.float f)
  | .str s => some (.str s)
  | .other => none

/-- `value.attr`. -/
def getField (attr : Str) : Value → Option Value
  | .dict _ members => Value.lookup attr members
  | _ => none

/-- `value[index]`. -/
def getItem : Value → Value → Option Value
  | .list _ items, .int i => if 0 ≤ i then items[i.toNat]? else none
  | .str s, .int i => if 0 ≤ i then (s[i.toNat]?).map fun c => .str [c] else none
  | .dict _ members, .str key => Value.lookup key members
  | _, _ => none

def asBool : Value → Eval Bool
  | .bool b => pure b
  | _ => throw .value

def asKeys : List Value → Option (List Str)
  | [] => some []
  | .str s :: rest => (asKeys rest).map (s :: ·)
  | _ :: _ => none

/-- `dict(zip(keys, values))`. -/
def zipMembers (keys : List Str) (values : List Value) : List (Str × Value) :=
  (keys.zip values).foldl (fun members p => Value.setMember p.1 p.2 members) []

def unary (op : UnaryOp) (v : Value) : Eval Value :=
  match op, v with
  | .not, .bool b => pure (.bool !b)
  | .not, _ => throw .value
  | op, v => if isNumber v then pure (if op = .neg then negate v else v) else throw .value

def length : Value → Option Value
  | .str s => some (.int s.length)
  | .list _ items => some (.int items.length)
  | .dict _ members => some (.int members.length)
  | _ => none

/-- A call of one of the functions. -/
def applyFunction (id : Str) (args : List Value) : Option Value :=
  match args with
  | [] => none
  | v :: rest =>
    if id = str "len" ∨ id = str "length" then if rest.isEmpty then length v else none
    else if !(v :: rest).all isNumber then none
    else if id = str "abs" then if rest.isEmpty then some (absolute v) else none
    else if id = str "min" then some (firstBy floatLt v rest)
    else some (firstBy (fun a b => floatLt b a) v rest)

/-- `node.func.id`. -/
def functionId : Ast → Eval Str
  | .name id => pure id
  | _ => throw .attribute

/-- Nothing is read below 24 levels. -/
def nested {α : Type} (depth : ℕ) (x : Eval α) : Eval α := if 24 < depth then throw .value else x

mutual

/-- The value of a node. -/
def read (host : Host) (env : Environment) (depth : ℕ) : Ast → Eval Value
  | .constant literal => nested depth do bounded host (← orValue literal.toValue)
  | .name id => nested depth (env.lookup id)
  | .attribute value attr => nested depth do orValue (getField attr (← read host env (depth + 1) value))
  | .subscript value slice => nested depth do
    let value ← read host env (depth + 1) value
    let index ← read host env (depth + 1) slice
    orValue (getItem value index)
  | .list elts => nested depth do
    let items ← readAll host env (depth + 1) elts
    let addr ← alloc
    return .list addr items
  | .dict keys values => nested depth do
    let keys ← orThrow .value (asKeys (← readKeys host env (depth + 1) keys))
    let values ← readAll host env (depth + 1) values
    let addr ← alloc
    return .dict addr (zipMembers keys values)
  | .boolOp op values => nested depth (readBool host env (depth + 1) op values)
  | .unaryOp op operand => nested depth do unary op (← read host env (depth + 1) operand)
  | .binOp left op right => nested depth do
    let left ← read host env (depth + 1) left
    let right ← read host env (depth + 1) right
    binary host op left right
  | .compare left ops comparators => nested depth do
    let left ← read host env (depth + 1) left
    readCompare host env (depth + 1) left ops comparators
  | .call func args _ => nested depth do
    let args ← readAll host env (depth + 1) args
    let id ← functionId func
    orValue (applyFunction id args)
  | .other _ => nested depth (throw .value)

def readAll (host : Host) (env : Environment) (depth : ℕ) : List Ast → Eval (List Value)
  | [] => pure []
  | n :: rest => do
    let v ← read host env depth n
    let vs ← readAll host env depth rest
    return v :: vs

/-- The keys of a dict; there is nothing to read of an unpacked mapping. -/
def readKeys (host : Host) (env : Environment) (depth : ℕ) : List (Option Ast) → Eval (List Value)
  | [] => pure []
  | none :: _ => throw .value
  | some n :: rest => do
    let v ← read host env depth n
    let vs ← readKeys host env depth rest
    return v :: vs

/-- The values of a boolean operation, up to the one that decides it. -/
def readBool (host : Host) (env : Environment) (depth : ℕ) (op : BoolOp) : List Ast → Eval Value
  | [] => pure (.bool (op = .and))
  | n :: rest => do
    let b ← asBool (← read host env depth n)
    if b = (op = .or : Bool) then return .bool b
    else readBool host env depth op rest

/-- A chain of comparisons, up to the first that fails. -/
def readCompare (host : Host) (env : Environment) (depth : ℕ) (left : Value) :
    List CmpOp → List Ast → Eval Value
  | op :: ops, n :: rest => do
    let right ← read host env depth n
    match op.apply left.json right.json with
    | .error e => throw e
    | .ok false => return .bool false
    | .ok true => readCompare host env depth right ops rest
  | _, _ => pure (.bool true)

end

/-- The exceptions `evaluate` catches become a `ValueError`. -/
def Exc.caught : Exc → Exc
  | .type | .key | .index | .zeroDivision | .overflow | .recursion => .value
  | e => e

/-- A copy, where the stack has room for it. -/
def copyAt (host : Host) (site : CopySite) (v : Value) : Eval Value :=
  if host.fits site v.json then deepcopy v else throw .recursion

/-- `evaluate(expression, inputs, variables, outputs)`. -/
def evaluate (host : Host) (expression : Json) (env : Environment) : Eval Value := do
  let tree ← orThrow .value (parseExpression host expression)
  tryCatch (do
    let v ← bounded host (← read host env 0 tree)
    copyAt host .evaluated v) fun e => throw e.caught

end AI2Apps.AgentBuilder
