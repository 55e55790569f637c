import AI2Apps.Fusion.Patches
import AI2Apps.Fusion.Tooling

/-!
# The roles of a Fusion turn

What a turn talks to: the generator that drafts, the reviewer, the resolver that a review falls back on,
and the validator of the text that is committed.  Each can raise at every call.

* `DraftChunk`, `Chunks`: what a generator yields.
* `GeneratorTurn`, `Reviewer`, `Resolver`: the roles.
* `Orchestrator`: the roles with their configuration, and what a turn uses of the language.
-/

namespace AI2Apps.Fusion

open TextOrder

structure DraftChunk where
  text : Str := []
  tokenCount : ℤ := 0
  finished : Bool := false
  finishReason : Str := str "stop"
  signals : Option GateSignals := none
  checkpoint : Bool := false
  toolCalls : List FusionToolCall := []

/-- An asynchronous generator of chunks: what it yields, and what it raises at its end. -/
structure Chunks (Exn : Type) where
  items : List DraftChunk
  raised : Option Exn

/-- How a turn ends without a result: the generator raised, or the turn gave up, or anything else. -/
inductive Failure (Exn : Type) where
  | generator (e : Exn)
  | execution (reason : Str)
  | other (e : Exn)

structure GeneratorTurn (Exn : Type) where
  streamDraft : Chunks Exn
  resumeFromCheckpoint : Str → CheckpointDecision → Chunks Exn
  revise : Str → ReviewDecision → Except Exn (List StructuredPatch)
  /-- The method is optional. -/
  replanToolCalls : Option (Str → ToolReviewDecision → Chunks Exn)
  realize : Str → Json.Object → Except Exn Str
  commitDraft : Option Exn
  commitFinal : Str → Option Exn
  abort : Option Exn

/-- `review`: the request, the draft, its digest, its signals. -/
abbrev ReviewMethod (Exn : Type) := FusionRequest → Str → Str → GateSignals → Except Exn ReviewDecision

/-- `review_tool_calls`: the request, the draft, its calls, their faults, and whether this is the last
review. -/
abbrev ToolReviewMethod (Exn : Type) :=
  FusionRequest → Str → List FusionToolCall → List Str → Bool → Except Exn ToolReviewDecision

/-- A reviewer; a timeout is an exception.  A checkpoint reviewer gets the digest of the draft. -/
structure Reviewer (Exn : Type) where
  reviewCheckpoint : FusionRequest → Str → Str → GateSignals → Except Exn CheckpointDecision
  review : ReviewMethod Exn
  /-- The method is optional, and is taken where it is there; its progress is only shown. -/
  reviewWithProgress : Option (ReviewMethod Exn)
  /-- The method is optional. -/
  reviewToolCalls : Option (ToolReviewMethod Exn)

structure Resolver (Exn : Type) where
  /-- The method is optional. -/
  review : Option (ReviewMethod Exn)
  resolve : FusionRequest → Str → ReviewDecision → Except Exn ReviewDecision

/-- Where the user skips a review (`consume_skip_review`): at the checkpoint, before the review of the
draft, while the reviewer looks at it, and while the resolver does. -/
structure Skips where
  checkpoint : Bool
  final : Bool
  review : Bool
  fallback : Bool

structure Orchestrator (Exn : Type) where
  checks : Checks Exn
  texts : Texts Exn
  arithmetic : Arithmetic Exn
  isWord : ℕ → Bool
  /-- `sorted` of triggers, as a text. -/
  sorted : List Str → Str
  /-- What is raised where the transcript of a failed review is read: it may be no mapping. -/
  untranscribed : Exn → Option Exn
  attributeError : Json → Exn
  config : FusionConfig
  accepted : config.fault sorted = none
  beginTurn : FusionRequest → Except Exn (GeneratorTurn Exn)
  reviewer : Option (Reviewer Exn)
  resolver : Option (Resolver Exn)
  validator : Option (Str → Except Exn Bool)

namespace Orchestrator

variable {Exn : Type} (o : Orchestrator Exn)

/-- The decision of the gate. -/
def gate (request : FusionRequest) (signals : GateSignals) : Except Exn GateDecision :=
  (evaluate o.arithmetic o.checks.lower o.isWord o.config request signals).map GateEvaluation.decision

end Orchestrator

end AI2Apps.Fusion
