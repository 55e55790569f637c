import AI2Apps.Fusion.Roles

/-!
# The review of a draft without tool calls

The reviewer looks at the draft, or, where the reviewer fails, the resolver.  Their decision is applied:
the draft is passed, patched, revised by the generator, or handed to the resolver, and what cannot be
applied falls back on the policies of the configuration.

* `applyFailurePolicy`, `resolveOrFallback`, `applyReviewDecision`: how a decision is applied.
* `reviewByRoles`: the review.
* `Disturbed`, `reviewByRoles_other`: what is raised that is neither the generator's nor the turn's.
-/

namespace AI2Apps.Fusion

open TextOrder

/-- How the review of a draft without tool calls ends. -/
structure DraftReview where
  final : Str
  path : Str
  changedPatches : List StructuredPatch := []
  action : Option ReviewAction := none

variable {Exn : Type}

namespace Orchestrator

variable (o : Orchestrator Exn) (request : FusionRequest) (turn : GeneratorTurn Exn) (draft : Str)

/-! ## What falls back -/

/-- `_resolver_handles`, with the resolver that does. -/
def resolverFor (reason : String) : Option (Resolver Exn) :=
  if o.config.resolverEnabled ∧ str reason ∈ o.config.resolverTriggers then o.resolver else none

/-- `realize`, whose exceptions are the generator's. -/
def realized (blueprint : Json.Object) (path : String) : Except (Failure Exn) (Str × Str) :=
  match turn.realize draft blueprint with
  | .ok text => .ok (text, str path)
  | .error e => .error (.generator e)

/-- `_apply_failure_policy`. -/
def applyFailurePolicy (review : Option ReviewDecision) (policy : FailurePolicy) (reason : String) :
    Except (Failure Exn) (Str × Str) :=
  match if request.highRisk then o.config.highRiskFailurePolicy else policy with
  | .returnDraft => .ok (draft, str reason ++ str "_draft")
  | .localRebuild =>
    let blueprint := (review.map ReviewDecision.blueprint).getD []
    if blueprint ≠ [] then realized turn draft blueprint "local_rebuild"
    else if request.highRisk then
      .error (.execution (str reason ++ str ": no local fallback blueprint for high-risk request"))
    else .ok (draft, str reason ++ str "_draft")
  | .error => .error (.execution (str reason))

/-- `apply_structured_patches`. -/
def patched (patches : List StructuredPatch) : Except (PatchRaised Exn) Str :=
  applyStructuredPatches o.texts o.config.maxChangedRatio draft patches

/-- `_resolve_or_fallback`. -/
def resolveOrFallback (review : ReviewDecision) (reason : String) : Except (Failure Exn) (Str × Str) :=
  let policy := o.config.resolverUnavailablePolicy
  match o.resolverFor reason with
  | none => o.applyFailurePolicy request turn draft (some review) policy reason
  | some resolver =>
    match resolver.resolve request draft review with
    | .error _ => o.applyFailurePolicy request turn draft (some review) policy "resolver_failed"
    | .ok resolution =>
      if resolution.action = .patch then
        match o.patched draft resolution.patches with
        | .ok text => .ok (text, str "resolved_patch")
        | .error .applyError => o.applyFailurePolicy request turn draft (some review) policy "resolver_patch_failed"
        | .error (.other e) => .error (.other e)
      else if resolution.blueprint ≠ [] then realized turn draft resolution.blueprint "resolved"
      else if resolution.action = .pass then .ok (draft, str "resolver_pass")
      else .error (.execution (str "resolver returned no applicable resolution"))

/-! ## Decisions -/

/-- Where a decision cannot be applied: one of the resolver's falls back on the policy, one of the
reviewer's on the resolver. -/
def fallBack (review : ReviewDecision) (external : Bool) (externalReason localReason : String) :
    Except (Failure Exn) DraftReview :=
  (if external then
    o.applyFailurePolicy request turn draft (some review) o.config.resolverUnavailablePolicy externalReason
  else o.resolveOrFallback request turn draft review localReason).map fun r =>
    { final := r.1, path := r.2, action := some review.action }

/-- The reviewer is not sure, and the resolver takes over. -/
def Unsure (review : ReviewDecision) (external : Bool) : Prop :=
  review.confidence.any (fun c => floatLt c o.config.reviewerEscalateBelow) ∧ external = false ∧
    (o.resolverFor "reviewer_uncertain").isSome

instance (review : ReviewDecision) (external : Bool) : Decidable (o.Unsure review external) :=
  inferInstanceAs (Decidable (_ ∧ _))

/-- `_apply_review_decision`. -/
def applyReviewDecision (review : ReviewDecision) (external : Bool) : Except (Failure Exn) DraftReview :=
  let path (name : String) : Str := (if external then str "resolver_review_" else []) ++ str name
  if o.Unsure review external then
    (o.resolveOrFallback request turn draft review "reviewer_uncertain").map fun r =>
      { final := r.1, path := r.2, action := some review.action }
  else
    match review.action with
    | .pass => .ok { final := draft, path := path "pass", action := some review.action }
    | .patch =>
      match o.patched draft review.patches with
      | .ok text =>
        .ok { final := text, path := path "patch", changedPatches := review.patches, action := some review.action }
      | .error .applyError =>
        o.fallBack request turn draft review external "resolver_review_patch_failed" "patch_failed"
      | .error (.other e) => .error (.other e)
    | .revise =>
      match turn.revise draft review with
      | .error _ => o.fallBack request turn draft review external "resolver_review_revision_failed" "patch_failed"
      | .ok revision =>
        match o.patched draft revision with
        | .ok text =>
          .ok { final := text, path := path "revise", changedPatches := revision, action := some review.action }
        | .error _ => o.fallBack request turn draft review external "resolver_review_revision_failed" "patch_failed"
    | .escalate => o.fallBack request turn draft review external "resolver_review_escalate" "reviewer_escalate"

/-! ## The review -/

variable (signals : GateSignals)

/-- The review by one of the roles, none where the user skips it.  The digest of the draft comes first. -/
def ask (method : ReviewMethod Exn) (skipped : Bool) : Except Exn (Option ReviewDecision) := do
  let digest ← textSha256 o.texts draft
  if skipped then return none
  else return some (← method request draft digest signals)

/-- The events show parts of the transcript of a decision, which may be no mapping. -/
def transcribed (review : ReviewDecision) : Except (Failure Exn) Unit :=
  match getOr review.metadata "reviewer_transcript" (.obj []) with
  | .obj _ => .ok ()
  | v => .error (.other (o.attributeError v))

/-- A decision is shown, and applied. -/
def decided (review : ReviewDecision) (external : Bool) : Except (Failure Exn) DraftReview := do
  o.transcribed review
  o.applyReviewDecision request turn draft review external

/-- The user skipped the review. -/
def skipped : DraftReview := { final := draft, path := str "skip_user" }

/-- What is settled on without a decision. -/
def undecided (policy : FailurePolicy) (reason : String) : Except (Failure Exn) DraftReview :=
  (o.applyFailurePolicy request turn draft none policy reason).map fun r => { final := r.1, path := r.2 }

/-- The reviewer failed, and the resolver is asked. -/
def reviewFallback (skips : Skips) : Except (Failure Exn) DraftReview :=
  match (o.resolverFor "reviewer_failed").bind Resolver.review with
  | none => o.undecided request turn draft o.config.reviewerFailurePolicy "reviewer_failed"
  | some method =>
    match o.ask request draft signals method skips.fallback with
    | .error _ => o.undecided request turn draft o.config.resolverUnavailablePolicy "resolver_review_failed"
    | .ok none => .ok (skipped draft)
    | .ok (some review) => o.decided request turn draft review true

/-- The review of a draft without tool calls. -/
def reviewByRoles (skips : Skips) (reviewer : Reviewer Exn) : Except (Failure Exn) DraftReview :=
  match o.ask request draft signals (reviewer.reviewWithProgress.getD reviewer.review) skips.review with
  | .ok none => .ok (skipped draft)
  | .ok (some review) => o.decided request turn draft review false
  | .error e =>
    match o.untranscribed e with
    | some raised => .error (.other raised)
    | none => o.reviewFallback request turn draft signals skips

/-! ## What nobody catches -/

/-- The decision that is applied, and whether it is the resolver's. -/
inductive Given (skips : Skips) (reviewer : Reviewer Exn) : ReviewDecision → Bool → Prop
  | ofReviewer {review : ReviewDecision}
      (h : o.ask request draft signals (reviewer.reviewWithProgress.getD reviewer.review) skips.review =
        .ok (some review)) : Given skips reviewer review false
  | ofResolver {review : ReviewDecision} {e : Exn} {method : ReviewMethod Exn}
      (hfailed : o.ask request draft signals (reviewer.reviewWithProgress.getD reviewer.review) skips.review =
        .error e) (hmethod : (o.resolverFor "reviewer_failed").bind Resolver.review = some method)
      (h : o.ask request draft signals method skips.fallback = .ok (some review)) : Given skips reviewer review true

/-- What the review of a draft meets and does not catch. -/
inductive Disturbed (skips : Skips) (reviewer : Reviewer Exn) : Prop
  /-- The transcript of a failed review is no mapping. -/
  | failure {e raised : Exn}
      (h : o.ask request draft signals (reviewer.reviewWithProgress.getD reviewer.review) skips.review = .error e)
      (hraised : o.untranscribed e = some raised) : Disturbed skips reviewer
  /-- The transcript of a decision is no mapping. -/
  | transcript {review : ReviewDecision} {external : Bool}
      (h : o.Given request draft signals skips reviewer review external)
      (hbad : ∀ members, getOr review.metadata "reviewer_transcript" (.obj []) ≠ .obj members) :
      Disturbed skips reviewer
  /-- The number of a block in a patch is not read. -/
  | patch {review : ReviewDecision} {external : Bool} {p : StructuredPatch}
      (h : o.Given request draft signals skips reviewer review external)
      (hp : p ∈ review.patches ∨ ∃ reason resolver resolution, o.resolverFor reason = some resolver ∧
        resolver.resolve request draft review = .ok resolution ∧ p ∈ resolution.patches)
      (hunreadable : Unreadable o.texts p) : Disturbed skips reviewer

variable {o request turn draft signals} {skips : Skips} {reviewer : Reviewer Exn} {e : Exn}

variable {review : ReviewDecision} {external : Bool}

/-- A role that is asked finds the digest of the draft. -/
theorem encodable_of_ask {method : ReviewMethod Exn} {skipped : Bool}
    (h : o.ask request draft signals method skipped = .ok (some review)) : Encodable draft := by
  unfold ask at h
  unfold Encodable
  intro hnone
  unfold textSha256 at h
  rw [hnone] at h
  cases h

theorem Given.encodable (h : o.Given request draft signals skips reviewer review external) :
    Encodable draft := by
  cases h with
  | ofReviewer h => exact encodable_of_ask h
  | ofResolver _ _ h => exact encodable_of_ask h

theorem patched_other {patches : List StructuredPatch} (hdraft : Encodable draft)
    (h : o.patched draft patches = .error (.other e)) : ∃ p ∈ patches, Unreadable o.texts p :=
  (applyStructuredPatches_other h).resolve_left (not_not_intro hdraft)

theorem realized_ne_other {blueprint : Json.Object} {path : String} :
    realized turn draft blueprint path ≠ .error (.other e) := by
  unfold realized
  split <;> exact nofun

theorem applyFailurePolicy_ne_other {review : Option ReviewDecision} {policy : FailurePolicy} {reason : String} :
    o.applyFailurePolicy request turn draft review policy reason ≠ .error (.other e) := by
  unfold applyFailurePolicy
  dsimp only
  split
  · exact nofun
  · split_ifs
    · exact realized_ne_other
    · exact nofun
    · exact nofun
  · exact nofun

/-- The resolver's patches are what is not caught where the resolver is consulted. -/
theorem resolveOrFallback_other {reason : String} (hdraft : Encodable draft)
    (h : o.resolveOrFallback request turn draft review reason = .error (.other e)) :
    ∃ resolver resolution, o.resolverFor reason = some resolver ∧
      resolver.resolve request draft review = .ok resolution ∧ ∃ p ∈ resolution.patches, Unreadable o.texts p := by
  unfold resolveOrFallback at h
  dsimp only at h
  split at h
  · exact absurd h applyFailurePolicy_ne_other
  · rename_i resolver hresolver
    split at h
    · exact absurd h applyFailurePolicy_ne_other
    · rename_i resolution hresolution
      split_ifs at h
      · split at h
        · cases h
        · exact absurd h applyFailurePolicy_ne_other
        · rename_i raised hpatched
          exact ⟨resolver, resolution, hresolver, hresolution, patched_other hdraft hpatched⟩
      · exact absurd h realized_ne_other
      · cases h

theorem map_other {α β : Type} {x : Except (Failure Exn) α} {f : α → β} (h : x.map f = .error (.other e)) :
    x = .error (.other e) := by
  cases x with
  | ok a => cases h
  | error raised => exact congrArg Except.error (Except.error.inj h)

theorem fallBack_other {externalReason localReason : String} (hdraft : Encodable draft)
    (h : o.fallBack request turn draft review external externalReason localReason = .error (.other e)) :
    ∃ reason resolver resolution, o.resolverFor reason = some resolver ∧
      resolver.resolve request draft review = .ok resolution ∧ ∃ p ∈ resolution.patches, Unreadable o.texts p := by
  have hrun := map_other h
  split_ifs at hrun
  · exact absurd hrun applyFailurePolicy_ne_other
  · exact ⟨localReason, resolveOrFallback_other hdraft hrun⟩

/-- Where a decision is applied, only patches are not caught. -/
theorem applyReviewDecision_other (hdraft : Encodable draft)
    (h : o.applyReviewDecision request turn draft review external = .error (.other e)) :
    ∃ p, (p ∈ review.patches ∨ ∃ reason resolver resolution, o.resolverFor reason = some resolver ∧
      resolver.resolve request draft review = .ok resolution ∧ p ∈ resolution.patches) ∧ Unreadable o.texts p := by
  have hresolver : (∃ reason resolver resolution, o.resolverFor reason = some resolver ∧
      resolver.resolve request draft review = .ok resolution ∧ ∃ p ∈ resolution.patches, Unreadable o.texts p) →
      ∃ p, (p ∈ review.patches ∨ ∃ reason resolver resolution, o.resolverFor reason = some resolver ∧
        resolver.resolve request draft review = .ok resolution ∧ p ∈ resolution.patches) ∧ Unreadable o.texts p :=
    fun ⟨reason, resolver, resolution, hfor, hresolve, p, hp, hunreadable⟩ =>
      ⟨p, Or.inr ⟨reason, resolver, resolution, hfor, hresolve, hp⟩, hunreadable⟩
  unfold applyReviewDecision at h
  dsimp only at h
  by_cases hunsure : o.Unsure review external
  · rw [if_pos hunsure] at h
    exact hresolver ⟨_, resolveOrFallback_other hdraft (map_other h)⟩
  · rw [if_neg hunsure] at h
    split at h
    · cases h
    · split at h
      · cases h
      · exact hresolver (fallBack_other hdraft h)
      · rename_i raised hpatched
        obtain ⟨p, hp, hunreadable⟩ := patched_other hdraft hpatched
        exact ⟨p, Or.inl hp, hunreadable⟩
    · split at h
      · exact hresolver (fallBack_other hdraft h)
      · split at h
        · cases h
        · exact hresolver (fallBack_other hdraft h)
    · exact hresolver (fallBack_other hdraft h)

theorem decided_other (hgiven : o.Given request draft signals skips reviewer review external)
    (h : o.decided request turn draft review external = .error (.other e)) :
    o.Disturbed request draft signals skips reviewer := by
  unfold decided transcribed at h
  split at h
  · obtain ⟨p, hp, hunreadable⟩ := applyReviewDecision_other hgiven.encodable h
    exact .patch hgiven hp hunreadable
  · rename_i hbad
    exact .transcript hgiven hbad

/-- **The review of a draft lets nothing through but the exceptions of the generator and those of the turn,
unless a transcript is no mapping or the number of a block is not read.** -/
theorem reviewByRoles_other (h : o.reviewByRoles request turn draft signals skips reviewer = .error (.other e)) :
    o.Disturbed request draft signals skips reviewer := by
  unfold reviewByRoles at h
  split at h
  · cases h
  · rename_i review hask
    exact decided_other (.ofReviewer hask) h
  · rename_i raised hask
    split at h
    · rename_i later hlater
      exact .failure hask hlater
    · unfold reviewFallback undecided at h
      split at h
      · exact absurd (map_other h) applyFailurePolicy_ne_other
      · rename_i method hmethod
        split at h
        · exact absurd (map_other h) applyFailurePolicy_ne_other
        · cases h
        · rename_i review hreview
          exact decided_other (.ofResolver hask hmethod hreview) h

end Orchestrator

end AI2Apps.Fusion
