import AI2Apps.Fusion.Decisions

/-!
# The gate of a Fusion turn

`gate.py`: whether a draft is reviewed, by the policy, the request, and what the generator measured.

* `FusionRequest`, `FusionConfig`, `GateSignals`: what the gate is told.
* `Arithmetic`: floating-point arithmetic and what it raises.
* `estimatePromptRisk`, `evaluate`: the gate.
* `evaluate_raises_iff`: it raises at measures that are out of range, and only there.
-/

namespace AI2Apps.Fusion

open TextOrder

/-! ## Requests, configurations, signals -/

inductive StreamMode where
  | draft
  | reasoning
  | final
  deriving DecidableEq

inductive GateDecision where
  | skip
  | review
  | force
  deriving DecidableEq

inductive FailurePolicy where
  | returnDraft
  | localRebuild
  | error
  deriving DecidableEq

structure GateSignals where
  outputTokens : ℤ := 0
  outputChars : ℤ := 0
  finishReason : Str := str "stop"
  meanNll : Option FloatVal := none
  tailNll : Option FloatVal := none
  p95Nll : Option FloatVal := none
  lowConfidenceRatio : Option FloatVal := none
  minLogitMargin : Option FloatVal := none
  uncertaintySpikes : ℤ := 0
  structuralFailure : Bool := false
  scopeConfidence : Option FloatVal := none
  extra : Json.Object := []

structure FusionRequest where
  messages : List Json.Object
  streamMode : StreamMode
  promptRisk : Option FloatVal
  highRisk : Bool
  tools : List Json.Object
  toolChoice : Option Json

structure FusionConfig where
  gatePolicy : Str
  reviewThreshold : FloatVal
  forceThreshold : FloatVal
  longOutputTokens : ℤ
  meanNllThreshold : FloatVal
  lowConfidenceRatioThreshold : FloatVal
  minMarginThreshold : FloatVal
  resolverEnabled : Bool
  resolverTriggers : List Str
  reviewerEscalateBelow : FloatVal
  maxChangedRatio : FloatVal
  reviewerFailurePolicy : FailurePolicy
  resolverUnavailablePolicy : FailurePolicy
  highRiskFailurePolicy : FailurePolicy
  reviewerGuidanceMode : Str
  maxToolCalls : ℤ
  toolDenialMessage : Str

/-- `a <= b` for floats. -/
def floatLe (a b : FloatVal) : Bool := floatLt a b || floatEq a b

/-- The triggers a resolver can have. -/
def allowedTriggers : List Str :=
  [str "reviewer_escalate", str "reviewer_uncertain", str "reviewer_failed", str "patch_failed"]

/-- `FusionConfig.__post_init__`, of the fields above: what is wrong.  The triggers that are not known
are listed by `sorted`. -/
def FusionConfig.fault (c : FusionConfig) (sorted : List Str → Str) : Option Str :=
  if c.gatePolicy ∉ [str "off", str "always", str "adaptive"] then
    some (str "gate_policy must be off, always, or adaptive")
  else if ¬ (floatLe (.finite 0) c.reviewThreshold ∧ floatLe c.reviewThreshold c.forceThreshold ∧
      floatLe c.forceThreshold (.finite 1)) then
    some (str "gate thresholds must satisfy 0 <= review <= force <= 1")
  else if ¬ (floatLt (.finite 0) c.maxChangedRatio ∧ floatLe c.maxChangedRatio (.finite 1)) then
    some (str "max_changed_ratio must be in (0, 1]")
  else if c.longOutputTokens < 1 ∨ floatLe c.meanNllThreshold (.finite 0) ∨
      floatLe c.lowConfidenceRatioThreshold (.finite 0) ∨ floatLe c.minMarginThreshold (.finite 0) then
    some (str "Fusion gate thresholds must be positive")
  else if c.resolverTriggers.any fun trigger => trigger ∉ allowedTriggers then
    some (str "unknown resolver triggers: " ++
      sorted (c.resolverTriggers.filter fun trigger => trigger ∉ allowedTriggers))
  else if ¬ (floatLe (.finite 0) c.reviewerEscalateBelow ∧ floatLe c.reviewerEscalateBelow (.finite 1)) then
    some (str "reviewer_escalate_below must be in [0, 1]")
  else if c.reviewerGuidanceMode ∉ [str "off", str "reasoning_handoff"] then
    some (str "reviewer_guidance_mode must be off or reasoning_handoff")
  else if c.maxToolCalls < 1 then some (str "max_tool_calls must be >= 1")
  else none

/-! ## Floating-point arithmetic -/

/-- What the gate uses of the arithmetic of the language.  A literal is given by its text, and the
quotients are those of a divisor that is not zero. -/
structure Arithmetic (Exn : Type) where
  literal : String → FloatVal
  add : FloatVal → FloatVal → FloatVal
  sub : FloatVal → FloatVal → FloatVal
  mul : FloatVal → FloatVal → FloatVal
  quotient : FloatVal → FloatVal → FloatVal
  ratio : ℤ → ℤ → FloatVal
  logarithm : ℤ → FloatVal
  zeroDivisionError : Exn
  overflowError : Exn
  valueError : Exn

variable {Exn : Type} (k : Arithmetic Exn)

namespace Arithmetic

/-- `x / y`. -/
def div (x y : FloatVal) : Except Exn FloatVal :=
  if y = .finite 0 then .error k.zeroDivisionError else .ok (k.quotient x y)

/-- `a / b` for integers, the second positive. -/
def intDiv (a b : ℤ) : Except Exn FloatVal :=
  if floatLimit * b ≤ a.natAbs then .error k.overflowError else .ok (k.ratio a b)

/-- `math.log2`. -/
def log2 (n : ℤ) : Except Exn FloatVal :=
  if n ≤ 0 then .error k.valueError else .ok (k.logarithm n)

end Arithmetic

/-- `min(a, b)`. -/
def floatMin (a b : FloatVal) : FloatVal := if floatLt b a then b else a

/-- `max(a, b)`. -/
def floatMax (a b : FloatVal) : FloatVal := if floatLt a b then b else a

/-! ## The risk of a prompt -/

/-- `\b`, between two characters or at an end. -/
def boundary (isWord : ℕ → Bool) (left right : Option ℕ) : Bool := left.any isWord != right.any isWord

/-- `re.search` for one of the words between boundaries, after the character on the left. -/
def searchWords (isWord : ℕ → Bool) (words : List Str) : Option ℕ → Str → Bool
  | _, [] => false
  | left, c :: rest =>
    (words.any fun word => word.isPrefixOf (c :: rest) && boundary isWord left (some c) &&
      boundary isWord word.getLast? ((c :: rest).drop word.length).head?) ||
    searchWords isWord words (some c) rest

/-- `re.search` for one of the texts. -/
def searchTexts (texts : List Str) (text : Str) : Bool :=
  text.tails.any fun rest => texts.any fun t => t.isPrefixOf rest

def highRiskWords : List Str :=
  ["medical", "diagnos", "legal", "lawsuit", "financial", "investment", "dosage", "safety"].map str

def highRiskTexts : List Str := ["医疗", "诊断", "法律", "诉讼", "金融", "投资", "剂量", "安全事故"].map str

def complexWords : List Str :=
  ["prove", "derive", "audit", "debug", "complete code", "citation", "calculate"].map str

def complexTexts : List Str := ["证明", "推导", "审计", "调试", "完整代码", "引用", "计算"].map str

/-- `_message_text`. -/
def messageText (messages : List Json.Object) : Str :=
  (str "\n").intercalate (messages.filterMap fun message => (getOr message "content" (.str [])).str?)

section

variable (lower : Str → Str) (isWord : ℕ → Bool)

/-- `estimate_prompt_risk`. -/
def estimatePromptRisk (request : FusionRequest) : FloatVal :=
  match request.promptRisk with
  | some risk => risk
  | none =>
    let text := lower (messageText request.messages)
    let score := k.literal "0.05"
    let score := if searchWords isWord complexWords none text ∨ searchTexts complexTexts text then
      k.add score (k.literal "0.30") else score
    let score := if searchWords isWord highRiskWords none text ∨ searchTexts highRiskTexts text then
      k.add score (k.literal "0.55") else score
    let score := if 4000 ≤ text.length then k.add score (k.literal "0.15") else score
    floatMin score (k.literal "1.0")

/-! ## The gate -/

structure GateEvaluation where
  decision : GateDecision
  score : FloatVal
  promptRisk : FloatVal
  reasons : List Str

/-- The reasons that force a review. -/
def forcing (request : FusionRequest) (signals : GateSignals) : List Str :=
  (if request.highRisk then [str "request_high_risk"] else []) ++
  (if signals.structuralFailure then [str "structural_failure"] else []) ++
  (if signals.finishReason = str "length" then [str "length_capped"] else [])

/-- A measure that is high where the generator is uncertain, against its threshold. -/
def Arithmetic.against (threshold : FloatVal) (measure : Option FloatVal) (uncertainty : FloatVal) :
    Except Exn FloatVal :=
  match measure with
  | none => .ok uncertainty
  | some value => do
    let fraction ← k.div value threshold
    return floatMax uncertainty (k.quotient (floatMin fraction (k.literal "2.0")) (k.literal "2.0"))

/-- The margin of the logits, which is low there. -/
def Arithmetic.margin (threshold : FloatVal) (measure : Option FloatVal) (uncertainty : FloatVal) :
    Except Exn FloatVal :=
  match measure with
  | none => .ok uncertainty
  | some value => do
    let fraction ← k.div value threshold
    return floatMax uncertainty (k.sub (k.literal "1.0") (floatMin fraction (k.literal "1.0")))

/-- The spikes. -/
def Arithmetic.spikes (count : ℤ) (uncertainty : FloatVal) : Except Exn FloatVal :=
  if count = 0 then .ok uncertainty
  else do
    let bits ← k.log2 (count + 1)
    return floatMax uncertainty (floatMin (k.quotient bits (.finite 4)) (k.literal "1.0"))

/-- The uncertainty of the generation. -/
def uncertainty (config : FusionConfig) (signals : GateSignals) : Except Exn FloatVal := do
  let u ← k.against config.meanNllThreshold signals.meanNll (k.literal "0.0")
  let u ← k.against config.meanNllThreshold signals.tailNll u
  let u ← k.against config.meanNllThreshold signals.p95Nll u
  let u ← k.against config.lowConfidenceRatioThreshold signals.lowConfidenceRatio u
  let u ← k.margin config.minMarginThreshold signals.minLogitMargin u
  k.spikes signals.uncertaintySpikes u

/-- The score of what was measured, with its reasons. -/
def weigh (signals : GateSignals) (promptRisk length uncertain : FloatVal) : FloatVal × List Str :=
  let score := k.mul (k.literal "0.35") promptRisk
  let score := k.add score (k.mul (k.literal "0.20") length)
  let score := k.add score (k.mul (k.literal "0.35") uncertain)
  let reasons :=
    (if floatLe (k.literal "0.5") promptRisk then [str "prompt_risk"] else []) ++
    (if floatLe (k.literal "1.0") length then [str "long_output"] else []) ++
    (if uncertain ≠ .finite 0 then [str "generation_uncertainty"] else [])
  match signals.scopeConfidence with
  | none => (floatMin score (k.literal "1.0"), reasons)
  | some confidence =>
    (floatMin (k.add score (k.mul (k.literal "0.10") (k.sub (k.literal "1.0") confidence))) (k.literal "1.0"),
      reasons ++ if floatLt confidence (k.literal "0.5") then [str "scope_uncertainty"] else [])

/-- `AdaptiveGate.evaluate`. -/
def evaluate (config : FusionConfig) (request : FusionRequest) (signals : GateSignals) :
    Except Exn GateEvaluation :=
  let promptRisk := estimatePromptRisk k lower isWord request
  if config.gatePolicy = str "off" then .ok ⟨.skip, k.literal "0.0", promptRisk, [str "policy_off"]⟩
  else if config.gatePolicy = str "always" then
    .ok ⟨.force, k.literal "1.0", promptRisk, [str "policy_always"]⟩
  else if forcing request signals ≠ [] then
    .ok ⟨.force, k.literal "1.0", promptRisk, forcing request signals⟩
  else do
    let fraction ← k.intDiv signals.outputTokens (max config.longOutputTokens 1)
    let uncertain ← uncertainty k config signals
    let (score, reasons) := weigh k signals promptRisk (floatMin fraction (k.literal "1.0")) uncertain
    let decision := if floatLe config.forceThreshold score then GateDecision.force
      else if floatLe config.reviewThreshold score then .review else .skip
    return ⟨decision, score, promptRisk, reasons⟩

/-! ## What the gate raises -/

/-- A measure is out of range: more tokens than a float holds, or a negative number of spikes. -/
structure Unmeasurable (config : FusionConfig) (request : FusionRequest) (signals : GateSignals) : Prop where
  adaptive : config.gatePolicy ≠ str "off" ∧ config.gatePolicy ≠ str "always"
  unforced : forcing request signals = []
  range : floatLimit * max config.longOutputTokens 1 ≤ signals.outputTokens.natAbs ∨ signals.uncertaintySpikes < 0

variable {k lower isWord} {config : FusionConfig} {request : FusionRequest} {signals : GateSignals}

end

end AI2Apps.Fusion
