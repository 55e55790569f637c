import AI2Apps.Context.Canonical
import AI2Apps.Lib.Utf8
import Mathlib.Algebra.BigOperators.Group.List.Basic
import Mathlib.Algebra.Order.Floor.Ring
import Mathlib.Data.Finset.Basic
import Mathlib.Data.Rat.Floor

/-!
# The context engine

`context_engine/core.py`: which part of a surface is summarized, and how a summary takes its
place.  A surface is a list of messages; a tool call is open from its message to its result,
and the surface is cut only where no call is open.

* `Message`, `Node`, `Surface`: messages with the text they are stored as.
* `pairNode`, `balancedCuts`: the open tool calls.
* `prepare`, `prepareRange`: a part is selected.
* `replacement`: it is replaced, when the surface around it still is what it was.

Hashing, the text of floats, `str` of values that are no text and products of floats are
parameters, and messages hold no floats.
-/

namespace AI2Apps.Context

open Extensions (sortKeys)
open ModelSharing (truthy)

/-- What is outside the model. -/
structure Tools where
  floats : FloatText
  /-- `hashlib.sha256(content).hexdigest()`. -/
  sha256 : List ℕ → Str
  /-- `str(value)` of a value that is no text. -/
  text : Json → Str
  /-- An integer times a float. -/
  times : ℤ → ℚ → ℚ

inductive Raised where
  | valueError (text : String)
  /-- `UnicodeEncodeError`, a `ValueError`. -/
  | unicodeEncodeError
  /-- `JSONDecodeError`, a `ValueError`. -/
  | jsonDecodeError
  | changedError (text : String)
  | summaryError (text : String)
  | busyError (text : String)
  | typeError
  | attributeError
  | keyError
  | indexError
  deriving DecidableEq

/-- `len(text.encode())`. -/
def encodedLength (text : Str) : Except Raised ℤ :=
  match Utf8.encode text with
  | some bytes => .ok bytes.length
  | none => .error .unicodeEncodeError

/-- `hashlib.sha256(text.encode()).hexdigest()`. -/
def Tools.hexdigest (tools : Tools) (text : Str) : Except Raised Str :=
  match Utf8.encode text with
  | some bytes => .ok (tools.sha256 bytes)
  | none => .error .unicodeEncodeError

/-! ## Messages -/

/-- A message with its keys in order, as its text has them. -/
structure Message where
  fields : Json.Object
  plain : (Json.obj fields).plain = true
  sorted : sortKeys (.obj fields) = .obj fields

namespace Message

/-- `body_json` of `Node.message`. -/
def of (fields : Json.Object) (h : (Json.obj fields).plain = true) : Message where
  fields := inOrder (Extensions.sortMembers fields)
  plain := by rw [← sortKeys_obj, plain_sortKeys, h]
  sorted := by rw [← sortKeys_obj, sortKeys_idem]

/-- `body`. -/
def body (m : Message) : Json := .obj m.fields

/-- `body.get(key)`. -/
def get (m : Message) (key : String) : Option Json := Json.lookup (str key) m.fields

/-- `body.get("role")`, when it is a text. -/
def role (m : Message) : Option Str := (m.get "role").bind Json.str?

/-- `body.get("tool_calls") or []`, unless it is false. -/
def toolCalls (m : Message) : Option Json := (m.get "tool_calls").filter fun v => truthy v

end Message

@[ext]
structure Node where
  id : Str
  message : Message
  pinned : Bool

/-- `body_json`. -/
def Message.bodyJson (floats : FloatText) (m : Message) : Str := JsonText.dumps floats m.body

/-- What two nodes are compared by. -/
def Node.fields (floats : FloatText) (n : Node) : Str × Str × Bool :=
  (n.id, n.message.bodyJson floats, n.pinned)

structure Surface where
  sessionId : Str
  nodes : List Node
  unique : (nodes.map Node.id).Nodup

/-- `Surface(session_id, nodes)`. -/
def Surface.make (sessionId : Str) (nodes : List Node) : Except Raised Surface :=
  if h : (nodes.map Node.id).Nodup then .ok ⟨sessionId, nodes, h⟩
  else .error (.valueError "Surface node IDs must be unique")

/-! ## Routes, budgets and meters -/

inductive MeasurementUnit where
  | tokens
  | utf8Bytes
  deriving DecidableEq

structure Route where
  provider : Str
  model : Str
  capacity : ℤ
  outputReservation : ℤ
  unit : MeasurementUnit
  positive : 0 < capacity
  reserved : 0 ≤ outputReservation ∧ outputReservation < capacity
  named : provider ≠ [] ∧ model ≠ []

/-- `Route(provider, model, capacity, output_reservation, unit)`. -/
def Route.make (provider model : Str) (capacity outputReservation : ℤ) (unit : MeasurementUnit) :
    Except Raised Route :=
  if hpositive : 0 < capacity then
    if hreserved : 0 ≤ outputReservation ∧ outputReservation < capacity then
      if hnamed : provider ≠ [] ∧ model ≠ [] then
        .ok ⟨provider, model, capacity, outputReservation, unit, hpositive, hreserved, hnamed⟩
      else .error (.valueError "An explicit provider/model route is required")
    else .error (.valueError "Output reservation leaves no input capacity")
  else .error (.valueError "Positive routed capacity required")

/-- What is kept: a share of what is available, or a number of units. -/
inductive Retention where
  | ratio (q : ℚ)
  | units (n : ℕ)

structure Policy where
  thresholdRatio : ℚ
  headroom : ℕ
  retain : Retention
  ratio : 0 < thresholdRatio ∧ thresholdRatio < 1
  below : ∀ q, retain = .ratio q → 0 ≤ q ∧ q < thresholdRatio

/-- `budgets`. -/
def Policy.budgets (tools : Tools) (policy : Policy) (route : Route) : Except Raised (ℤ × ℤ) :=
  let available := route.capacity - route.outputReservation
  let threshold := ⌊min (tools.times route.capacity policy.thresholdRatio)
    (available - policy.headroom : ℤ)⌋
  let retention := match policy.retain with
    | .ratio q => ⌊tools.times available q⌋
    | .units n => (n : ℤ)
  if threshold ≤ 0 ∨ threshold ≤ retention then
    .error (.valueError "Routed output/headroom/retention policy leaves no pressure budget")
  else .ok (threshold, retention)

structure Meter where
  unit : MeasurementUnit
  node : Node → Route → Except Raised ℤ
  envelope : Surface → Route → Except Raised ℤ

/-- `Utf8Meter`. -/
def utf8Meter (floats : FloatText) : Meter where
  unit := .utf8Bytes
  node n _ := encodedLength (n.message.bodyJson floats)
  envelope _ _ := .ok 0

def costs (surface : Surface) (route : Route) (meter : Meter) : Except Raised (List ℤ × ℤ) :=
  if meter.unit ≠ route.unit then .error (.valueError "Meter and route units differ")
  else do
    let values ← surface.nodes.mapM fun n => meter.node n route
    let envelope ← meter.envelope surface route
    if (values ++ [envelope]).any (· < 0) then .error (.valueError "Meter returned invalid costs")
    else .ok (values, values.sum + envelope)

/-! ## Open tool calls -/

def invalidCall : Raised := .valueError "Invalid or duplicate pending Tool call"

def orphanResult : Raised := .valueError "Orphan or duplicate Tool result"

/-- `call.get("id")`, a text that is not empty. -/
def callId : Json → Except Raised Str
  | .obj call =>
    match Json.lookup (str "id") call with
    | some (.str identifier) => if identifier = [] then .error invalidCall else .ok identifier
    | _ => .error invalidCall
  | _ => .error .attributeError

def openCalls (pending : Finset Str) : List Json → Except Raised (Finset Str)
  | [] => .ok pending
  | call :: calls => do
    let identifier ← callId call
    if identifier ∈ pending then .error invalidCall
    else openCalls (insert identifier pending) calls

/-- The calls of a message are added to the open ones. -/
def openNode (pending : Finset Str) (m : Message) : Except Raised (Finset Str) :=
  match m.toolCalls with
  | none => .ok pending
  | some calls =>
    if m.role ≠ some (str "assistant") then
      .error (.valueError "Tool calls require assistant messages")
    else
      match calls with
      | .arr calls => openCalls pending calls
      | .str _ | .obj _ => .error .attributeError
      | _ => .error .typeError

/-- A result closes its call. -/
def closeNode (pending : Finset Str) (m : Message) : Except Raised (Finset Str) :=
  if m.role = some (str "tool") then
    match m.get "tool_call_id" with
    | some (.str identifier) =>
      if identifier ∈ pending then .ok (pending.erase identifier) else .error orphanResult
    | some (.arr _) | some (.obj _) => .error .typeError
    | _ => .error orphanResult
  else .ok pending

/-- The body of the loop. -/
def pairNode (pending : Finset Str) (m : Message) : Except Raised (Finset Str) :=
  openNode pending m >>= fun pending => closeNode pending m

/-- The open calls before each node and after the last. -/
def pendings (pending : Finset Str) : List Node → Except Raised (List (Finset Str))
  | [] => .ok [pending]
  | n :: nodes => do
    let after ← pairNode pending n.message
    let rest ← pendings after nodes
    return pending :: rest

def balancedCuts (nodes : List Node) : Except Raised (List Bool) :=
  (pendings ∅ nodes).map fun l => l.map fun pending => decide (pending = ∅)

/-- `cuts[i]`. -/
def cutAt (cuts : List Bool) (i : ℕ) : Bool := cuts.getD i false

/-! ## Selection -/

structure Prepared where
  sessionId : Str
  source : List Node
  before : List Str
  after : List Str
  route : Route
  sourceCost : ℤ
  sourceSha256 : Str

/-- The nodes that are never summarized from the left: pinned ones and system messages. -/
def leading (nodes : List Node) : ℕ :=
  (nodes.takeWhile fun n => n.pinned || n.message.role = some (str "system")).length

/-- How many nodes are kept, over the costs from the newest on: even a retention of nothing
keeps the newest. -/
def keptFrom (retention : ℤ) : ℤ → List ℤ → ℕ
  | _, [] => 0
  | accumulated, v :: rest =>
    if retention ≤ accumulated + v then 1 else 1 + keptFrom retention (accumulated + v) rest

/-- `while keep > start and not cuts[keep]: keep -= 1`. -/
def lastCut (cuts : List Bool) (start : ℕ) : ℕ → ℕ
  | 0 => 0
  | keep + 1 =>
    if start < keep + 1 ∧ cutAt cuts (keep + 1) = false then lastCut cuts start keep else keep + 1

/-- The range as it is frozen. -/
def freeze (tools : Tools) (surface : Surface) (route : Route) (values : List ℤ)
    (start keep : ℕ) : Except Raised Prepared := do
  let source := (surface.nodes.take keep).drop start
  let sha256 ← tools.hexdigest (canonical tools.floats
    (.arr (source.map fun n => .str (n.message.bodyJson tools.floats))))
  return {
    sessionId := surface.sessionId
    source
    before := (surface.nodes.take start).map Node.id
    after := (surface.nodes.drop keep).map Node.id
    route
    sourceCost := ((values.take keep).drop start).sum
    sourceSha256 := sha256 }

/-- `prepare` after the pressure is measured. -/
def select (tools : Tools) (surface : Surface) (route : Route) (values : List ℤ)
    (retention : ℤ) : Except Raised (Option Prepared) := do
  let cuts ← balancedCuts surface.nodes
  let start := leading surface.nodes
  if start = surface.nodes.length ∨ cutAt cuts start = false then .ok none
  else
    let keep := surface.nodes.length - keptFrom retention 0 values.reverse
    let firstPinned := start + ((surface.nodes.take keep).drop start).findIdx Node.pinned
    let keep := lastCut cuts start (min keep firstPinned)
    if keep ≤ start then .ok none
    else (freeze tools surface route values start keep).map some

inductive Trigger where
  | pressure
  | contextOverflow
  | manual
  deriving DecidableEq

def prepare (tools : Tools) (surface : Surface) (route : Route) (meter : Meter) (policy : Policy) :
    Trigger → Except Raised (Option Prepared)
  | .pressure => do
    let (values, total) ← costs surface route meter
    let (threshold, retention) ← policy.budgets tools route
    if total < threshold then .ok none else select tools surface route values retention
  | .contextOverflow | .manual => do
    let (values, _) ← costs surface route meter
    select tools surface route values 0

def prepareRange (tools : Tools) (surface : Surface) (route : Route) (meter : Meter)
    (start stop : ℕ) : Except Raised Prepared :=
  if ¬ (start < stop ∧ stop ≤ surface.nodes.length) then .error (.valueError "Invalid surface range")
  else do
    let (values, _) ← costs surface route meter
    let cuts ← balancedCuts surface.nodes
    let source := (surface.nodes.take stop).drop start
    if cutAt cuts start = false ∨ cutAt cuts stop = false ∨
        source.any (fun n => n.pinned || n.message.role = some (str "system")) then
      .error (.valueError "Range crosses a protected or unbalanced boundary")
    else freeze tools surface route values start stop

/-! ## Replacement -/

/-- `ids.index(id)`. -/
def indexOf (id : Str) (nodes : List Node) : Option ℕ := nodes.findIdx? fun n => n.id = id

/-- What a summary has to be. -/
def checkSummary (summary : Node) : Except Raised Unit :=
  if summary.pinned ∨ summary.message.toolCalls.isSome then
    .error (.summaryError "Summary must be a nonprivileged text checkpoint")
  else
    match summary.message.get "role" with
    | some (.arr _) | some (.obj _) => .error .typeError
    | _ =>
      if summary.message.role ≠ some (str "assistant") ∧ summary.message.role ≠ some (str "user") then
        .error (.summaryError "Summary must be a nonprivileged text checkpoint")
      else
        match summary.message.get "content" with
        | some (.str content) =>
          if TextOrder.strip content = [] then .error (.summaryError "Empty or non-text summary")
          else .ok ()
        | _ => .error (.summaryError "Empty or non-text summary")

def replacement (floats : FloatText) (prepared : Prepared) (current : Surface) (summary : Node)
    (meter : Meter) : Except Raised Surface :=
  if current.sessionId ≠ prepared.sessionId then .error (.changedError "Session changed")
  else
    match prepared.source.head? with
    | none => .error .indexError
    | some first =>
      match indexOf first.id current.nodes with
      | none => .error (.changedError "Selected source disappeared")
      | some start =>
        let stop := start + prepared.source.length
        if ((current.nodes.take stop).drop start).map (Node.fields floats) ≠
            prepared.source.map (Node.fields floats) then
          .error (.changedError "Selected span changed during summarization")
        else if (current.nodes.take start).map Node.id ≠ prepared.before then
          .error (.changedError "Source boundary changed")
        else if ((current.nodes.drop stop).take prepared.after.length).map Node.id ≠
            prepared.after then
          .error (.changedError "Retained boundary changed")
        else do
          let cuts ← balancedCuts current.nodes
          if cutAt cuts start = false ∨ cutAt cuts stop = false then
            .error (.changedError "Tool pairing changed")
          else do
            checkSummary summary
            let cost ← meter.node summary prepared.route
            if prepared.sourceCost ≤ cost then
              .error (.summaryError "Summary does not reduce routed context cost")
            else
              Surface.make current.sessionId
                (current.nodes.take start ++ summary :: current.nodes.drop stop)

end AI2Apps.Context
