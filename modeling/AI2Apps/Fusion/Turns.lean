import AI2Apps.Fusion.DraftReview
import AI2Apps.Lib.Faults

/-!
# A Fusion turn

One turn drafts an answer, may let a reviewer look at it at a checkpoint, checks the tool calls of the
draft and has them reviewed, at most once with a new plan, and commits one text.  Everything the turn
talks to can raise at every call.

* `Orchestrator.provisional`: the draft, through its checkpoint.
* `Orchestrator.reviewToolCandidate`: the review of tool calls.
* `Orchestrator.settle`, `stream`: the turn.

A run records what the turn was told and what it committed.
-/

namespace AI2Apps.Fusion

open Faults JsonText TextOrder

/-- What a turn is told and what it commits. -/
inductive Interaction where
  | drafted (chunks : List DraftChunk)
  | resumed (decision : CheckpointDecision) (chunks : List DraftChunk)
  | replanned (chunks : List DraftChunk)
  | toolReviewed (draft : Str) (calls : List FusionToolCall) (errors : List Str)
      (action : Option ToolReviewAction)
  | committed (text : Str)

abbrev Record := List Interaction

structure FusionResult where
  text : Str
  draft : Str
  gateDecision : GateDecision
  reviewAction : Option ReviewAction
  path : Str
  signals : GateSignals
  toolCalls : List FusionToolCall

abbrev Turn (Exn : Type) := EStateM (Failure Exn) Record

variable {Exn : Type}

def record (i : Interaction) : Turn Exn Unit := modify (· ++ [i])

def orFail {α : Type} : Except (Failure Exn) α → Turn Exn α
  | .ok a => pure a
  | .error e => throw e

/-- An exception that the turn lets through, though it is not the generator's. -/
def foreign {α : Type} : Except Exn α → Except (Failure Exn) α :=
  Except.mapError .other

/-- The chunks of a stream that ends; what the generator raises goes through. -/
def drain (chunks : Chunks Exn) (seen : List DraftChunk → Interaction) : Turn Exn (List DraftChunk) :=
  match chunks.raised with
  | some e => throw (.generator e)
  | none => do
    record (seen chunks.items)
    return chunks.items

/-- `"".join(parts)`. -/
def joined (chunks : List DraftChunk) : Str := (chunks.map DraftChunk.text).flatten

def lastFinished (chunks : List DraftChunk) : Option DraftChunk :=
  (chunks.filter DraftChunk.finished).getLast?

def lastCheckpoint (chunks : List DraftChunk) : Option DraftChunk :=
  (chunks.filter DraftChunk.checkpoint).getLast?

/-- `_final_signals`. -/
def finalSignals (draft : Str) (chunk : DraftChunk) : GateSignals :=
  let signals := chunk.signals.getD {}
  { signals with
    outputTokens := if signals.outputTokens = 0 then chunk.tokenCount else signals.outputTokens
    outputChars := if signals.outputChars = 0 then draft.length else signals.outputChars
    finishReason := if chunk.finishReason = [] then signals.finishReason else chunk.finishReason }

/-! ## The draft -/

/-- The reviewer rejects the draft so far. -/
def CheckpointDecision.rejects (d : CheckpointDecision) : Bool :=
  d.action = .redirect ∨ d.action = .reasoningHandoff

/-- The decision to go on. -/
def continued (summary : String) : CheckpointDecision where
  action := .continue
  summary := str summary
  confidence := none
  guidance := []
  reasoningSeed := []
  constraints := []
  metadata := []

namespace Orchestrator

variable (o : Orchestrator Exn) (request : FusionRequest) (turn : GeneratorTurn Exn)

/-- A digest, whose exception nobody catches. -/
def digest (text : Str) : Except (Failure Exn) Str := foreign (textSha256 o.texts text)

/-- The decision of the checkpoint reviewer, if the reviewer makes one that is allowed. -/
def askCheckpoint (draft digest : Str) (signals : GateSignals) : Option CheckpointDecision := do
  let reviewer ← o.reviewer
  let decision ← (reviewer.reviewCheckpoint request draft digest signals).toOption
  if decision.action = .reasoningHandoff ∧ o.config.reviewerGuidanceMode ≠ str "reasoning_handoff" then
    none
  else some decision

/-- The decision at a checkpoint, which fails open except for a request of high risk. -/
def checkpointDecision (skipped : Bool) (draft digest : Str) (signals : GateSignals) :
    Except (Failure Exn) CheckpointDecision :=
  if skipped then .ok (continued "Review skipped by user")
  else
    match o.askCheckpoint request draft digest signals with
    | some decision => .ok decision
    | none =>
      if request.highRisk then .error (.execution (str "checkpoint_reviewer_failed"))
      else .ok (continued "checkpoint reviewer unavailable; fail-open continuation")

/-- What a decision does before the draft goes on; a handoff is recorded with the digest of its seed. -/
def heed (decision : CheckpointDecision) : Except (Failure Exn) Unit :=
  match decision.action with
  | .reasoningHandoff => (o.digest decision.reasoningSeed).map fun _ => ()
  | .abort => .error (.execution (str "checkpoint_reviewer_aborted"))
  | .continue => .ok ()
  | .redirect => .ok ()

/-- The checkpoint: the decision about the text so far. -/
def checkpoint (skipped : Bool) (draft : Str) (chunk : DraftChunk) :
    Except (Failure Exn) CheckpointDecision := do
  let digest ← o.digest draft
  let decision ← o.checkpointDecision request skipped draft digest (finalSignals draft chunk)
  o.heed decision
  return decision

end Orchestrator

/-- The draft, its last finished chunk, and whether the user skipped the review at the checkpoint. -/
structure Provisional where
  draft : Str
  finalChunk : Option DraftChunk
  userSkipped : Bool

namespace Orchestrator

variable (o : Orchestrator Exn) (request : FusionRequest) (turn : GeneratorTurn Exn)

/-- The draft of the turn.  The last finished chunk of the first stream stays when the stream after a
checkpoint has none. -/
def provisional (skips : Skips) : Turn Exn Provisional := do
  let first ← drain turn.streamDraft .drafted
  match lastCheckpoint first with
  | none => return { draft := joined first, finalChunk := lastFinished first, userSkipped := false }
  | some chunk => do
    let decision ← orFail (o.checkpoint request skips.checkpoint (joined first) chunk)
    if decision.rejects || !chunk.finished then do
      let more ← drain (turn.resumeFromCheckpoint (joined first) decision) (.resumed decision)
      return {
        draft := (if decision.rejects then [] else joined first) ++ joined more
        finalChunk := (lastFinished more).or (lastFinished first)
        userSkipped := skips.checkpoint }
    else
      return {
        draft := joined first, finalChunk := lastFinished first, userSkipped := skips.checkpoint }

end Orchestrator

/-- The chunk that stands for a missing last one. -/
def emptyChunk (draft : Str) : DraftChunk :=
  { finished := true, signals := some { outputChars := draft.length } }

def Provisional.chunk (p : Provisional) : DraftChunk := p.finalChunk.getD (emptyChunk p.draft)

/-! ## The review of tool calls -/

/-- A text that is about to be committed, with the draft it stands for and the calls that go with it. -/
structure Settled where
  final : Str
  draft : Str
  signals : GateSignals
  toolCalls : List FusionToolCall
  path : Str
  changedPatches : List StructuredPatch := []
  action : Option ReviewAction := none

/-- The draft with its calls. -/
def Settled.passed (draft : Str) (signals : GateSignals) (calls : List FusionToolCall) (path : String) : Settled :=
  { final := draft, draft, signals, toolCalls := calls, path := str path }

/-- A message instead of the draft. -/
def Settled.denied (message draft : Str) (signals : GateSignals) : Settled :=
  { final := message, draft, signals, toolCalls := [], path := str "tool_denied" }

namespace Orchestrator

variable (o : Orchestrator Exn) (request : FusionRequest) (turn : GeneratorTurn Exn)

/-- `decision.user_message or self.config.tool_denial_message`. -/
def denialMessage (decision : ToolReviewDecision) : Str :=
  if decision.userMessage = [] then o.config.toolDenialMessage else decision.userMessage

def validate (calls : List FusionToolCall) : Except (Failure Exn) (List Str) :=
  foreign (validateToolCalls o.checks calls request.tools request.toolChoice o.config.maxToolCalls)

/-- The second half of the review: one new plan, and its review. -/
def replan (reviewToolCalls : ToolReviewMethod Exn) (chunks : Chunks Exn) (draft : Str)
    (signals : GateSignals) : Turn Exn Settled :=
  match chunks.raised with
  | some _ => return .denied o.config.toolDenialMessage draft signals
  | none => do
    record (.replanned chunks.items)
    let replanned := joined chunks.items
    let chunk := (lastFinished chunks.items).getD { finished := true }
    let signals := finalSignals replanned chunk
    let errors ← orFail (o.validate request chunk.toolCalls)
    let reply := (reviewToolCalls request replanned chunk.toolCalls errors true).toOption
    record (.toolReviewed replanned chunk.toolCalls errors (reply.map ToolReviewDecision.action))
    match reply with
    | none => return .denied o.config.toolDenialMessage replanned signals
    | some decision =>
      if decision.action = .pass ∧ errors = [] then
        return .passed replanned signals chunk.toolCalls "tool_replan_pass"
      else return .denied (o.denialMessage decision) replanned signals

/-- `_review_tool_candidate`. -/
def reviewToolCandidate (draft : Str) (signals : GateSignals) (calls : List FusionToolCall)
    (errors : List Str) : Turn Exn Settled :=
  match o.reviewer.bind Reviewer.reviewToolCalls with
  | none => return .denied o.config.toolDenialMessage draft signals
  | some reviewToolCalls => do
    let reply := (reviewToolCalls request draft calls errors false).toOption
    record (.toolReviewed draft calls errors (reply.map ToolReviewDecision.action))
    match reply with
    | none => return .denied o.config.toolDenialMessage draft signals
    | some decision =>
      match decision.action with
      | .pass =>
        if errors = [] then return .passed draft signals calls "tool_pass"
        else return .denied (o.denialMessage decision) draft signals
      | .deny => return .denied (o.denialMessage decision) draft signals
      | .replan =>
        match turn.replanToolCalls with
        | none => return .denied (o.denialMessage decision) draft signals
        | some replanToolCalls =>
          o.replan request reviewToolCalls (replanToolCalls draft decision) draft signals

/-! ## The turn -/

/-- The review of a draft without tool calls, where it is not skipped. -/
def reviewDraft (skips : Skips) (userSkipped : Bool) (gate : GateDecision) (draft : Str)
    (signals : GateSignals) : Except (Failure Exn) Settled :=
  match if userSkipped ∨ skips.final ∨ gate = .skip then none else o.reviewer with
  | none =>
    let path := if userSkipped ∨ gate ≠ .skip then "skip_user" else "skip"
    .ok (.passed draft signals [] path)
  | some reviewer => (o.reviewByRoles request turn draft signals skips reviewer).map fun r =>
    { final := r.final, draft, signals, toolCalls := [], path := r.path
      changedPatches := r.changedPatches, action := r.action }

/-- `draft_end`, which carries the digest of the draft. -/
def endDraft (draft : Str) : Except (Failure Exn) Unit :=
  if request.streamMode = .draft then (o.digest draft).map fun _ => () else .ok ()

/-- `_validate`, which a text must pass. -/
def validated (text : Str) : Except (Failure Exn) Unit := do
  match o.validator with
  | none => return
  | some validator =>
    if ← foreign (validator text) then return
    else throw (.execution (str "canonical answer failed validation"))

/-- The review of the calls of a draft, or of the draft where there are no calls and no faults. -/
def reviewCandidate (skips : Skips) (p : Provisional) (gate : GateDecision) (errors : List Str) :
    Turn Exn Settled :=
  let signals := finalSignals p.draft p.chunk
  if p.chunk.toolCalls ≠ [] ∨ errors ≠ [] then
    o.reviewToolCandidate request turn p.draft signals p.chunk.toolCalls errors
  else orFail (o.reviewDraft request turn skips p.userSkipped gate p.draft signals)

/-- The draft, from its end to the text that is settled on. -/
def reviewed (skips : Skips) (p : Provisional) : Turn Exn (Settled × GateDecision) := do
  orFail (o.endDraft request p.draft)
  let gate ← orFail (foreign (o.gate request (finalSignals p.draft p.chunk)))
  let errors ← orFail (o.validate request p.chunk.toolCalls)
  let settled ← o.reviewCandidate request turn skips p gate errors
  return (settled, gate)

/-- `commit_draft` or `commit_final`. -/
def commit (settled : Settled) : Turn Exn Unit := do
  orFail (o.validated settled.final)
  let raised := if settled.final = settled.draft then turn.commitDraft else turn.commitFinal settled.final
  fault (raised.map .generator)
  record (.committed settled.final)

/-- The turn up to its commit. -/
def settle (skips : Skips) : Turn Exn (Settled × GateDecision) := do
  let p ← o.provisional request turn skips
  let settled ← o.reviewed request turn skips p
  o.commit turn settled.1
  return settled

/-- The events after the commit; only that of a patch carries a digest. -/
def deliver (settled : Settled) : Except (Failure Exn) Unit :=
  if request.streamMode = .draft ∧ settled.final ≠ settled.draft ∧ settled.changedPatches ≠ [] ∧
      settled.path ∈ [str "patch", str "revise"] then
    (o.digest settled.final).map fun _ => ()
  else .ok ()

/-- What is raised before the commit aborts the turn, and the generator can raise then, too. -/
def abortOn (e : Failure Exn) : Failure Exn :=
  match turn.abort with
  | some raised => .generator raised
  | none => e

end Orchestrator

/-- `FusionOrchestrator.stream`, to its result. -/
def stream (o : Orchestrator Exn) (request : FusionRequest) (skips : Skips) : Turn Exn FusionResult := do
  let turn ← orFail ((o.beginTurn request).mapError .generator)
  let (settled, gate) ← tryCatch (o.settle request turn skips) fun e => throw (Orchestrator.abortOn turn e)
  orFail (o.deliver request settled)
  return {
    text := settled.final, draft := settled.draft, gateDecision := gate, reviewAction := settled.action
    path := settled.path, signals := settled.signals, toolCalls := settled.toolCalls }

end AI2Apps.Fusion
