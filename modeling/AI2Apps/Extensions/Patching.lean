import AI2Apps.Lib.JsonText
import AI2Apps.Lib.Utf8
import AI2Apps.ModelSharing.Jobs
import Mathlib.Data.List.Nodup
import Mathlib.Data.List.Sort

/-!
# Semantic patches

`compose` applies the local patches of a definition to its upstream document, operation by
operation, and records a conflict for a patch whose operation is refused.  What an operation
has done to the document when it is refused stays done.

* `targetValue`, `applyOperation`: one operation on a document.
* `composeOperation`: an operation with its precondition.
* `composeOperations`: the operations of a patch, up to the first refused.
* `compose`: the patches in order.

Hashing, the text of floats and `str` of values that are no text are parameters.
-/

namespace AI2Apps.Extensions

open ModelSharing (truthy)

/-- What is raised: an `ExtensionError`, or the `TypeError` and `UnicodeEncodeError` of the
language. -/
inductive Raised where
  | extension (code : String) (message : Str)
  | typeError
  | unicodeError
  deriving DecidableEq

inductive PatchStatus where
  | clean
  | rebased
  | needsReview
  | conflicted
  | disabled
  | superseded
  | failedTests
  deriving DecidableEq

inductive RebasePolicy where
  | strict
  | preserveLocal
  | aiAssisted
  | dropIfSatisfied
  deriving DecidableEq

def RebasePolicy.value : RebasePolicy → String
  | strict => "strict"
  | preserveLocal => "preserve-local"
  | aiAssisted => "ai-assisted"
  | dropIfSatisfied => "drop-if-satisfied"

/-- What `compose` reads of a `LocalPatchRecord`. -/
structure LocalPatch where
  id : Str
  baseDigest : Str
  rebasePolicy : RebasePolicy
  operations : List Json.Object
  resources : Json.Object
  status : PatchStatus

/-- An entry of `conflicts`. -/
structure Conflict where
  patchId : Str
  target : Str
  code : String
  message : Str
  policy : String
  deriving DecidableEq

/-- What is outside the model. -/
structure Tools where
  floats : FloatText
  /-- `hashlib.sha256(content).hexdigest()`. -/
  sha256 : List ℕ → Str
  /-- `str(value)` of a value that is no text. -/
  text : Json → Str

/-! ## Digests -/

mutual

/-- The value with the members of its objects in the order of their keys. -/
def sortKeys : Json → Json
  | .arr items => .arr (sortItems items)
  | .obj members => .obj ((sortMembers members).insertionSort fun a b => a.1 ≤ b.1)
  | value => value

def sortItems : List Json → List Json
  | [] => []
  | v :: items => sortKeys v :: sortItems items

def sortMembers : List (Str × Json) → List (Str × Json)
  | [] => []
  | (k, v) :: members => (k, sortKeys v) :: sortMembers members

end

/-- `canonical_digest`. -/
def canonicalDigest (tools : Tools) (value : Json) : Except Raised Str :=
  match Utf8.encode (JsonText.dumps tools.floats (sortKeys value)) with
  | some content => .ok (str "sha256:" ++ tools.sha256 content)
  | none => .error .unicodeError

/-! ## One operation -/

def targetKindChanged (target : Str) : Raised :=
  .extension "patch_target_kind_changed" (str "Patch target changed kind: " ++ target)

def targetMissing (target : Str) : Raised :=
  .extension "patch_target_missing" (str "Patch target missing: " ++ target)

def targetNotObject (target : Str) : Raised :=
  .extension "patch_target_kind_changed" (str "Patch target is not an object: " ++ target)

/-- `target_value`, at a path. -/
def valueAt (target : Str) : Str → List Str → Json → Except Raised Json
  | part, [], .obj o =>
    match Json.lookup part o with
    | some v => .ok v
    | none => .error (targetMissing target)
  | _, [], _ => .error (targetMissing target)
  | part, next :: rest, .obj o =>
    match Json.lookup part o with
    | some v => valueAt target next rest v
    | none => .error (targetMissing target)
  | _, _ :: _, _ => .error (targetKindChanged target)

/-- `target_value`. -/
def targetValue (root : Json.Object) (target : Str) : Except Raised Json :=
  if target = [] then .error (targetMissing target)
  else
    match target.splitOn 46 with
    | part :: rest => valueAt target part rest (.obj root)
    | [] => .error (targetMissing target)

/-- `_parent`, and what is done with its result: the value at a path with the parent changed, and
what is raised.  The objects made on the way stay. -/
def atParent (target : Str) (create : Bool) (act : Json → Str → Json × Option Raised) :
    Str → List Str → Json → Json × Option Raised
  | part, [], parent => act parent part
  | part, next :: rest, .obj o =>
    match Json.lookup part o with
    | some v =>
      let (v', raised) := atParent target create act next rest v
      (.obj (JsonText.setMember part v' o), raised)
    | none =>
      if create then
        let (v', raised) := atParent target create act next rest (.obj [])
        (.obj (JsonText.setMember part v' o), raised)
      else (.obj o, some (targetMissing target))
  | _, _ :: _, v => (v, some (targetKindChanged target))

inductive OperationKind where
  | merge
  | replace
  | extend
  | remove
  | add
  deriving DecidableEq

/-- `kind not in {...}`: a list or an object cannot be looked up in a set. -/
def OperationKind.read (target : Option Json) : Json → Except Raised (OperationKind × Str)
  | .arr _ => .error .typeError
  | .obj _ => .error .typeError
  | value =>
    let kind :=
      if value.str? = some (str "merge") then some merge
      else if value.str? = some (str "replace") then some replace
      else if value.str? = some (str "extend") then some extend
      else if value.str? = some (str "remove") then some remove
      else if value.str? = some (str "add") then some add
      else none
    match kind, target with
    | some kind, some (.str target) => .ok (kind, target)
    | _, _ => .error (.extension "invalid_patch_operation" (str "Patch operation is invalid"))

/-- `current.update(value)`. -/
def update (current value : Json.Object) : Json.Object :=
  value.foldl (fun o member => JsonText.setMember member.1 member.2 o) current

/-- What is done at the parent. -/
def perform (target : Str) (kind : OperationKind) (value : Json) (parent : Json) (key : Str) :
    Json × Option Raised :=
  match parent with
  | .obj o =>
    match kind with
    | .remove =>
      match Json.lookup key o with
      | some _ => (.obj (o.filter fun member => member.1 ≠ key), none)
      | none => (parent, some (targetMissing target))
    | .replace =>
      match Json.lookup key o with
      | some _ => (.obj (JsonText.setMember key value o), none)
      | none => (parent, some (targetMissing target))
    | .add => (.obj (JsonText.setMember key value o), none)
    | .merge =>
      match Json.lookup key o, value with
      | some (.obj current), .obj value => (.obj (JsonText.setMember key (.obj (update current value)) o), none)
      | _, _ =>
        (parent, some (.extension "patch_target_kind_changed" (str "Merge target changed kind: " ++ target)))
    | .extend =>
      match Json.lookup key o, value with
      | some (.arr current), .arr value => (.obj (JsonText.setMember key (.arr (current ++ value)) o), none)
      | _, _ =>
        (parent, some (.extension "patch_target_kind_changed" (str "Extend target changed kind: " ++ target)))
  | _ => (parent, some (targetNotObject target))

/-- `apply_operation`: the document afterwards, and what is raised. -/
def applyOperation (root : Json.Object) (operation : Json.Object) : Json.Object × Option Raised :=
  match OperationKind.read (Json.lookup (str "target") operation)
      ((Json.lookup (str "op") operation).getD .null) with
  | .error raised => (root, some raised)
  | .ok (kind, target) =>
    if target = [] then (root, some (targetNotObject target))
    else
      match target.splitOn 46 with
      | [] => (root, some (targetNotObject target))
      | part :: rest =>
        let value := (Json.lookup (str "value") operation).getD .null
        match atParent target (kind = .add) (perform target kind value) part rest (.obj root) with
        | (.obj root', raised) => (root', raised)
        | (_, raised) => (root, raised)

/-! ## A patch -/

/-- `str(operation.get("target", ""))`. -/
def targetText (tools : Tools) (operation : Json.Object) : Str :=
  match Json.lookup (str "target") operation with
  | none => []
  | some (.str target) => target
  | some value => tools.text value

/-- The name of a value's kind. -/
def kindName : Json → Str
  | .obj _ => str "object"
  | .arr _ => str "array"
  | .null => str "NoneType"
  | .bool _ => str "bool"
  | .int _ => str "int"
  | .float _ => str "float"
  | .str _ => str "str"

/-- Whether the value an operation expects is another. -/
def mismatch (tools : Tools) (operation : Json.Object) (current : Json) : Except Raised Bool :=
  let expectedKind := (Json.lookup (str "expected_kind") operation).getD .null
  let expectedDigest := (Json.lookup (str "expected_digest") operation).getD .null
  if truthy expectedKind ∧ ¬ expectedKind.pyEq (.str (kindName current)) then .ok true
  else if truthy expectedDigest then
    match canonicalDigest tools current with
    | .ok digest => .ok (!expectedDigest.pyEq (.str digest))
    | .error raised => .error raised
  else .ok false

/-- The value an operation is about, none where it adds one. -/
def currentValue (tools : Tools) (root : Json.Object) (operation : Json.Object) : Except Raised Json :=
  if Json.memberEq operation (str "op") (.str (str "add")) then .ok .null
  else targetValue root (targetText tools operation)

/-- The body of the loop over operations: the document afterwards, and what is raised. -/
def composeOperation (tools : Tools) (upstreamDigest : Str) (patch : LocalPatch) (root : Json.Object)
    (operation : Json.Object) : Json.Object × Option Raised :=
  match currentValue tools root operation with
  | .error raised => (root, some raised)
  | .ok current =>
    match mismatch tools operation current with
    | .error raised => (root, some raised)
    | .ok mismatched =>
      if mismatched ∧ patch.status ≠ .rebased then
        if patch.baseDigest ≠ upstreamDigest ∧ patch.rebasePolicy = .dropIfSatisfied ∧
            current.pyEq ((Json.lookup (str "value") operation).getD .null) then (root, none)
        else
          (root, some (.extension "patch_precondition_changed" (str "Upstream semantic target changed")))
      else applyOperation root operation

/-- How the operations of a patch end. -/
inductive Ending where
  | applied
  | conflict (conflict : Conflict)
  | raised (raised : Raised)

/-- The operations of a patch, up to the first that is refused. -/
def composeOperations (tools : Tools) (upstreamDigest : Str) (patch : LocalPatch) :
    Json.Object → List Json.Object → Json.Object × Ending
  | root, [] => (root, .applied)
  | root, operation :: rest =>
    match composeOperation tools upstreamDigest patch root operation with
    | (root', none) => composeOperations tools upstreamDigest patch root' rest
    | (root', some (.extension code message)) =>
      (root', .conflict ⟨patch.id, targetText tools operation, code, message, patch.rebasePolicy.value⟩)
    | (root', some raised) => (root', .raised raised)

/-! ## The patches in order -/

/-- The variables of `compose`. -/
structure Composed where
  result : Json.Object
  resources : Json.Object
  conflicts : List Conflict

/-- One patch.  Its resources are taken also where an operation of it was refused. -/
def composePatch (tools : Tools) (upstreamDigest : Str) (s : Composed) (patch : LocalPatch) :
    Except Raised Composed :=
  match composeOperations tools upstreamDigest patch s.result patch.operations with
  | (root, .applied) => .ok ⟨root, update s.resources patch.resources, s.conflicts⟩
  | (root, .conflict conflict) =>
    .ok ⟨root, update s.resources patch.resources, s.conflicts ++ [conflict]⟩
  | (_, .raised raised) => .error raised

def composeFrom (tools : Tools) (upstreamDigest : Str) : Composed → List LocalPatch → Except Raised Composed
  | s, [] => .ok s
  | s, patch :: rest =>
    match composePatch tools upstreamDigest s patch with
    | .ok s' => composeFrom tools upstreamDigest s' rest
    | .error raised => .error raised

/-- `compose`. -/
def compose (tools : Tools) (upstream : Json.Object) (patches : List LocalPatch) (upstreamDigest : Str) :
    Except Raised Composed :=
  composeFrom tools upstreamDigest ⟨upstream, [], []⟩ patches

end AI2Apps.Extensions
