import AI2Apps.Lib.JsonObjects
import AI2Apps.Omlx.ExtractThinking

/-!
# The decisions of reviewers, read from text

A reviewer model answers with a JSON object, and often with thinking, prose or a code fence around
it.  The answer is read as JSON when it is JSON; otherwise every opening brace is tried, and the last
object that the protocol accepts is the decision.

* `ReviewDecision`, `CheckpointDecision`, `ToolReviewDecision`: what reviewers decide.
* `Protocol.convert`: the decision of an object.
* `decisionFromJson`: the decision of a text.
* `payload`: the part of an answer that is read.
-/

namespace AI2Apps.Fusion

open JsonText TextOrder

/-- What conversions use of the language: `str.lower`, `str` of what is no text, `float` and `int`
of a text, and the texts of the exceptions they raise. -/
structure Builtins where
  floats : FloatText
  lower : Str → Str
  text : Json → Str
  floatOf : Str → Option FloatVal
  intOf : Str → Option ℤ
  complaint : Json → Str

inductive Raised where
  | valueError (text : Str)
  | typeError (text : Str)
  | overflowError (text : Str)

/-- `except ValueError`. -/
def Raised.IsValueError : Raised → Prop
  | .valueError _ => True
  | _ => False

variable (b : Builtins)

/-! ## Conversions of the language -/

/-- `str(value)`. -/
def Builtins.str : Json → Str
  | .str s => s
  | v => b.text v

/-- The least integer that is too large for a float. -/
def floatLimit : ℕ := 2 ^ 1024 - 2 ^ 970

/-- `float(value)`.  The integers that a float does not hold are far from what is compared later. -/
def Builtins.float : Json → Except Raised FloatVal
  | .bool v => .ok (.finite v.toNat)
  | .int i => if floatLimit ≤ i.natAbs then .error (.overflowError (b.complaint (.int i))) else .ok (.finite i)
  | .float f => .ok f
  | .str s =>
    match b.floatOf s with
    | some f => .ok f
    | none => .error (.valueError (b.complaint (.str s)))
  | v => .error (.typeError (b.complaint v))

/-- `int(value)`. -/
def Builtins.int : Json → Except Raised ℤ
  | .bool v => .ok v.toNat
  | .int i => .ok i
  | .float (.finite q) => .ok (q.num.tdiv q.den)
  | .float .nan => .error (.valueError (b.complaint (.float .nan)))
  | .float f => .error (.overflowError (b.complaint (.float f)))
  | .str s =>
    match b.intOf s with
    | some i => .ok i
    | none => .error (.valueError (b.complaint (.str s)))
  | v => .error (.typeError (b.complaint v))

/-- `not value`. -/
def falsy : Json → Bool
  | .null => true
  | .bool v => !v
  | .int i => i = 0
  | .float f => f = .finite 0
  | .str s => s.isEmpty
  | .arr items => items.isEmpty
  | .obj members => members.isEmpty

/-- `mapping.get(key, default)`. -/
def getOr (o : Json.Object) (key : String) (default : Json) : Json :=
  (Json.lookup (str key) o).getD default

/-- `mapping.get(key) or default`. -/
def getTruthy (o : Json.Object) (key : String) (default : Json) : Json :=
  match Json.lookup (str key) o with
  | some v => if falsy v then default else v
  | none => default

/-- `float(confidence) if confidence is not None else None`. -/
def confidence (o : Json.Object) : Except Raised (Option FloatVal) :=
  match Json.lookup (str "confidence") o with
  | none | some .null => .ok none
  | some v => (b.float v).map some

/-- `0.0 <= confidence <= 1.0`, where there is one. -/
def inUnit : Option FloatVal → Bool
  | none => true
  | some (.finite q) => 0 ≤ q && q ≤ 1
  | some _ => false

/-- `_as_tuple_strings`. -/
def asTupleStrings (o : Json.Object) (field : String) : Except Raised (List Str) :=
  match Json.lookup (str field) o with
  | none | some .null => .ok []
  | some (.arr items) =>
    match items.mapM Json.str? with
    | some texts => .ok texts
    | none => .error (.valueError (str field ++ str " must be a list of strings"))
  | some _ => .error (.valueError (str field ++ str " must be a list of strings"))

/-! ## Decisions -/

inductive ReviewAction where
  | pass
  | patch
  | revise
  | escalate
  deriving DecidableEq

inductive CheckpointAction where
  | continue
  | redirect
  | reasoningHandoff
  | abort
  deriving DecidableEq

inductive ToolReviewAction where
  | pass
  | replan
  | deny
  deriving DecidableEq

inductive PatchOperation where
  | replace
  | insertBefore
  | insertAfter
  | delete
  deriving DecidableEq

/-- The member of an enumeration with the given value. -/
def member {α : Type} (values : List (String × α)) (text : Str) : Option α :=
  (values.find? fun p => str p.1 = text).map Prod.snd

def ReviewAction.ofText : Str → Option ReviewAction :=
  member [("pass", .pass), ("patch", .patch), ("revise", .revise), ("escalate", .escalate)]

def CheckpointAction.ofText : Str → Option CheckpointAction :=
  member [("continue", .continue), ("redirect", .redirect), ("reasoning_handoff", .reasoningHandoff),
    ("abort", .abort)]

def ToolReviewAction.ofText : Str → Option ToolReviewAction :=
  member [("pass", .pass), ("replan", .replan), ("deny", .deny)]

/-- The operations and their values. -/
def PatchOperation.values : List (String × PatchOperation) :=
  [("replace", .replace), ("insert_before", .insertBefore), ("insert_after", .insertAfter),
    ("delete", .delete)]

def PatchOperation.ofText : Str → Option PatchOperation := member PatchOperation.values

def PatchOperation.value : PatchOperation → Str
  | .replace => str "replace"
  | .insertBefore => str "insert_before"
  | .insertAfter => str "insert_after"
  | .delete => str "delete"

structure StructuredPatch where
  baseSha256 : Str
  target : Str
  operation : PatchOperation
  before : Str
  after : Str
  expectedOccurrences : ℤ

/-- `StructuredPatch.__post_init__`: what is wrong. -/
def StructuredPatch.fault (p : StructuredPatch) : Option Str :=
  if p.baseSha256 = [] then some (str "patch base_sha256 is required")
  else if p.expectedOccurrences < 1 then some (str "patch expected_occurrences must be >= 1")
  else if p.before = [] then some (str "patch before is required for " ++ p.operation.value)
  else if p.operation = .delete ∧ p.after ≠ [] then
    some (str "delete patch must not provide after text")
  else none

structure ReviewDecision where
  action : ReviewAction
  summary : Str
  risk : Str
  confidence : Option FloatVal
  patches : List StructuredPatch
  instructions : List Str
  blueprint : Json.Object
  metadata : Json.Object

/-- `ReviewDecision.__post_init__`. -/
def ReviewDecision.fault (d : ReviewDecision) : Option Str :=
  if d.risk ∉ [str "low", str "medium", str "high"] then
    some (str "review risk must be low, medium, or high")
  else if inUnit d.confidence = false then some (str "review confidence must be in [0, 1]")
  else if d.action = .patch ∧ d.patches = [] then
    some (str "PATCH decision requires at least one patch")
  else if d.action = .revise ∧ d.instructions = [] then
    some (str "REVISE decision requires instructions")
  else none

structure ToolReviewDecision where
  action : ToolReviewAction
  summary : Str
  confidence : Option FloatVal
  guidance : List Str
  userMessage : Str

/-- `ToolReviewDecision.__post_init__`. -/
def ToolReviewDecision.fault (d : ToolReviewDecision) : Option Str :=
  if inUnit d.confidence = false then some (str "tool review confidence must be in [0, 1]")
  else if 3 < d.guidance.length then
    some (str "tool review guidance must contain at most 3 items")
  else if d.action = .replan ∧ d.guidance = [] then
    some (str "REPLAN tool review requires guidance")
  else none

structure CheckpointDecision where
  action : CheckpointAction
  summary : Str
  confidence : Option FloatVal
  guidance : List Str
  reasoningSeed : Str
  constraints : List Str
  metadata : Json.Object

/-- `CheckpointDecision.__post_init__`. -/
def CheckpointDecision.fault (d : CheckpointDecision) : Option Str :=
  if inUnit d.confidence = false then some (str "checkpoint confidence must be in [0, 1]")
  else if d.action = .redirect ∧ d.guidance = [] then
    some (str "REDIRECT checkpoint decision requires guidance")
  else if 3 < d.guidance.length then
    some (str "checkpoint guidance must contain at most 3 items")
  else if 3 < d.constraints.length then
    some (str "checkpoint constraints must contain at most 3 items")
  else if d.action = .reasoningHandoff ∧ strip d.reasoningSeed = [] then
    some (str "REASONING_HANDOFF checkpoint decision requires reasoning_seed")
  else none

/-- The value is made when nothing is wrong with it. -/
def checked {α : Type} (fault : α → Option Str) (value : α) : Except Raised α :=
  match fault value with
  | none => .ok value
  | some text => .error (.valueError text)

/-! ## The converters -/

/-- The action of a decision. -/
def actionOf {α : Type} (ofText : Str → Option α) (o : Json.Object) : Option α :=
  (Json.lookup (str "action") o).bind fun v => ofText (b.lower (b.str v))

/-- `except (KeyError, TypeError, ValueError)` around a patch. -/
def Raised.ofPatch : Raised → Raised
  | .valueError text => .valueError (str "invalid review patch: " ++ text)
  | .typeError text => .valueError (str "invalid review patch: " ++ text)
  | .overflowError text => .overflowError text

/-- The body of the loop over the patches. -/
def patchFromMapping (base : Option Str) : Json → Except Raised StructuredPatch
  | .obj raw =>
    let operationText := b.lower (b.str (getOr raw "operation" (.str (str "replace"))))
    Except.mapError Raised.ofPatch (do
      let some operation := PatchOperation.ofText operationText
        | throw (.valueError (b.complaint (.str operationText)))
      let expected ← b.int (getOr raw "expected_occurrences" (.int 1))
      checked StructuredPatch.fault
        { baseSha256 := b.str (getTruthy raw "base_sha256" (.str (base.getD [])))
          target := b.str (getOr raw "target" (.str (str "document")))
          operation
          before := b.str (getOr raw "before" (.str []))
          after := b.str (getOr raw "after" (.str []))
          expectedOccurrences := expected })
  | _ => throw (.valueError (str "each review patch must be an object"))

/-- The patches up to the first that fails. -/
def patchesFrom (base : Option Str) : List Json → Except Raised (List StructuredPatch)
  | [] => .ok []
  | raw :: raws => do
    let patch ← patchFromMapping b base raw
    let patches ← patchesFrom base raws
    return patch :: patches

def reviewDecisionFromMapping (base : Option Str) (o : Json.Object) : Except Raised ReviewDecision := do
  let some action := actionOf b ReviewAction.ofText o
    | throw (.valueError (str "review action is missing or invalid"))
  let .arr raws := getTruthy o "patches" (.arr [])
    | throw (.valueError (str "review patches must be a list"))
  let patches ← patchesFrom b base raws
  let .obj blueprint := getTruthy o "blueprint" (.obj [])
    | throw (.valueError (str "review blueprint must be an object"))
  let .obj metadata := getTruthy o "metadata" (.obj [])
    | throw (.valueError (str "review metadata must be an object"))
  let confidence ← confidence b o
  let instructions ← asTupleStrings o "instructions"
  checked ReviewDecision.fault
    { action
      summary := b.str (getOr o "summary" (.str []))
      risk := b.lower (b.str (getOr o "risk" (.str (str "medium"))))
      confidence, patches, instructions, blueprint, metadata }

def checkpointDecisionFromMapping (o : Json.Object) : Except Raised CheckpointDecision := do
  let some action := actionOf b CheckpointAction.ofText o
    | throw (.valueError (str "checkpoint action is missing or invalid"))
  let .obj metadata := getTruthy o "metadata" (.obj [])
    | throw (.valueError (str "checkpoint metadata must be an object"))
  let confidence ← confidence b o
  let guidance ← asTupleStrings o "guidance"
  let constraints ← asTupleStrings o "constraints"
  checked CheckpointDecision.fault
    { action
      summary := b.str (getOr o "summary" (.str []))
      confidence, guidance
      reasoningSeed := b.str (getOr o "reasoning_seed" (.str []))
      constraints, metadata }

def toolReviewDecisionFromMapping (o : Json.Object) : Except Raised ToolReviewDecision := do
  let some action := actionOf b ToolReviewAction.ofText o
    | throw (.valueError (str "tool review action is missing or invalid"))
  let confidence ← confidence b o
  let guidance ← asTupleStrings o "guidance"
  checked ToolReviewDecision.fault
    { action
      summary := b.str (getOr o "summary" (.str []))
      confidence, guidance
      userMessage := b.str (getOr o "user_message" (.str [])) }

/-! ## Decisions of texts -/

/-- The three protocols; a review knows the digest of the draft. -/
inductive Protocol where
  | review (base : Option Str)
  | checkpoint
  | toolReview

inductive Decision where
  | review (d : ReviewDecision)
  | checkpoint (d : CheckpointDecision)
  | toolReview (d : ToolReviewDecision)

/-- The name of the protocol in messages. -/
def Protocol.name : Protocol → Str
  | .review _ => str "review"
  | .checkpoint => str "checkpoint"
  | .toolReview => str "tool review"

/-- The `*_decision_from_mapping` of the protocol. -/
def Protocol.convert : Protocol → Json.Object → Except Raised Decision
  | .review base, o => (reviewDecisionFromMapping b base o).map .review
  | .checkpoint, o => (checkpointDecisionFromMapping b o).map .checkpoint
  | .toolReview, o => (toolReviewDecisionFromMapping b o).map .toolReview

/-- `str.rstrip`. -/
def rstrip (s : Str) : Str :=
  (s.reverse.dropWhile isWhitespace).reverse

/-- The group of ``^\s*```(?:json)?\s*(.*?)\s*```\s*$``, which matches over lines. -/
def fenced (text : Str) : Option Str :=
  let text := text.dropWhile isWhitespace
  if str "```" <+: text then
    let text := text.drop 3
    let text := if str "json" <+: text then text.drop 4 else text
    let text := rstrip (text.dropWhile isWhitespace)
    if str "```" <:+ text then some (rstrip (text.take (text.length - 3))) else none
  else none

/-- The text that is read: without thinking, and without a code fence around it. -/
def payload (text : Str) : Str :=
  let regular := (Omlx.extractThinking text).2
  (fenced regular).getD regular

/-- The loop over the candidates: the first that is not refused, or the last complaint. -/
def selectCandidate (p : Protocol) : Str → List Json.Object → Except Raised Decision
  | complaint, [] => .error (.valueError complaint)
  | _, o :: os =>
    match p.convert b o with
    | .error (.valueError text) => selectCandidate p text os
    | r => r

/-- `_decision_from_json`. -/
def decisionFromJson (p : Protocol) (text : Str) : Except Raised Decision :=
  let text := payload text
  match loads b.floats text with
  | some (.obj o) => p.convert b o
  | some _ => .error (.valueError (p.name ++ str " response must be a JSON object"))
  | none =>
    match found b.floats text.length text with
    | [] =>
      .error (.valueError (p.name ++ str " response is not valid JSON: " ++ b.complaint (.str text)))
    | candidates => selectCandidate b p [] candidates.reverse

def reviewDecisionFromJson (base : Option Str) (text : Str) : Except Raised Decision :=
  decisionFromJson b (.review base) text

def checkpointDecisionFromJson (text : Str) : Except Raised Decision :=
  decisionFromJson b .checkpoint text

def toolReviewDecisionFromJson (text : Str) : Except Raised Decision :=
  decisionFromJson b .toolReview text

end AI2Apps.Fusion
