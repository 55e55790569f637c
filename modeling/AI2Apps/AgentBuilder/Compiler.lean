import AI2Apps.AgentBuilder.Health
import AI2Apps.Lib.Dict

/-!
# The compiler of Site Agents

`agent_builder/compiler.py` turns an Agent Source into the steps an executor follows.
The operation of a step is the one its author names, or the first that the words of its
description suggest; where a step goes next is what its author writes, what its
description says, or the next step.

What the compiler reports of a source's schemas, variables, exports, arguments, AI
settings, fixtures, validators and model profile is a parameter.  The errors' messages are
left out, and so are the target, the arguments and the AI and interaction settings of a
compiled step, which take no part in where a run goes.

* `operationOf`, `parsedTransitions`, `effectOf`: what is read off one step.
* `routes`: where a step leads, before the targets are looked up.
* `compileSingle`, `compileSource`: one pipeline, and a source of several capabilities.
-/

namespace AI2Apps.AgentBuilder

open TextOrder (strip isWhitespace)

/-! ## Operations, outcomes, effects -/

inductive Operation where
  | assign
  | condition
  | openPage
  | pageAccess
  | inspect
  | extractList
  | readResults
  | readPage
  | waitState
  | aiClassify
  | aiExtract
  | aiTransform
  | searchApi
  | agentCall
  | approval
  | click
  | delete
  | input
  | hover
  | scroll
  | complete
  deriving DecidableEq

def Operation.name : Operation → Str
  | .assign => str "assign"
  | .condition => str "condition"
  | .openPage => str "open"
  | .pageAccess => str "page_access"
  | .inspect => str "inspect"
  | .extractList => str "extract_list"
  | .readResults => str "read_results"
  | .readPage => str "read_page"
  | .waitState => str "wait_state"
  | .aiClassify => str "ai.classify"
  | .aiExtract => str "ai.extract"
  | .aiTransform => str "ai.transform"
  | .searchApi => str "search.api"
  | .agentCall => str "agent.call"
  | .approval => str "approval"
  | .click => str "click"
  | .delete => str "delete"
  | .input => str "input"
  | .hover => str "hover"
  | .scroll => str "scroll"
  | .complete => str "complete"

/-- `OPERATIONS`. -/
def operations : List Operation := [.assign, .condition, .openPage, .pageAccess, .inspect,
  .extractList, .readResults, .readPage, .waitState, .aiClassify, .aiExtract, .aiTransform,
  .searchApi, .agentCall, .approval, .click, .delete, .input, .hover, .scroll, .complete]

def Operation.ofName? (name : Str) : Option Operation := operations.find? fun o => o.name = name

inductive Outcome where
  | success
  | true
  | false
  | skipped
  | notFound
  | retryableError
  | needsUser
  | restricted
  | failed
  deriving DecidableEq

def Outcome.name : Outcome → Str
  | .success => str "success"
  | .true => str "true"
  | .false => str "false"
  | .skipped => str "skipped"
  | .notFound => str "not_found"
  | .retryableError => str "retryable_error"
  | .needsUser => str "needs_user"
  | .restricted => str "restricted"
  | .failed => str "failed"

/-- `OUTCOMES`. -/
def outcomes : List Outcome := [.success, .true, .false, .skipped, .notFound, .retryableError,
  .needsUser, .restricted, .failed]

def Outcome.ofName? (name : Str) : Option Outcome := outcomes.find? fun o => o.name = name

/-- `TERMINALS`. -/
def terminals : List Str := [str "done", str "failed", str "pause"]

inductive Effect where
  | read
  | interact
  | destructive
  | restricted
  deriving DecidableEq

/-- `_effect`; no operation is left for `restricted`. -/
def effectOf : Operation → Effect
  | .assign | .condition | .inspect | .extractList | .readResults | .complete | .aiClassify
  | .aiExtract | .aiTransform | .searchApi | .approval => .read
  | .delete => .destructive
  | .openPage | .readPage | .waitState | .pageAccess | .click | .input | .hover | .scroll
  | .agentCall => .interact

inductive Mode where
  | compiled
  | interpreted
  | adaptive
  deriving DecidableEq

def Mode.ofName? (name : Str) : Option Mode :=
  if name = str "compiled" then some .compiled
  else if name = str "interpreted" then some .interpreted
  else if name = str "adaptive" then some .adaptive
  else none

structure CompileError where
  path : Str
  code : Str
  deriving DecidableEq

/-- What the compiler asks of the language and its libraries. -/
structure CompileHost extends Env where
  /-- `str.lower`. -/
  lower : Str → Str
  /-- A code point that `\d` matches. -/
  isDecimal : ℕ → Bool
  /-- `urlparse`: the URL has a web scheme and a host; it may raise. -/
  siteUrl : Str → Option Bool
  /-- What else is reported of one pipeline; a check may raise. -/
  otherErrors : Json.Object → Option (List CompileError)

/-! ## The operation of a step -/

/-- `cookie|隐私|遮挡|弹窗|blocker`. -/
def privacyWords : List Str := [str "cookie", [0x9690, 0x79C1], [0x906E, 0x6321], [0x5F39, 0x7A97],
  str "blocker"]

/-- `提取|extract|获取|收集`. -/
def extractWords : List Str := [[0x63D0, 0x53D6], str "extract", [0x83B7, 0x53D6], [0x6536, 0x96C6]]

/-- `文章|列表|链接|link|article|item|最新`. -/
def listWords : List Str := [[0x6587, 0x7AE0], [0x5217, 0x8868], [0x94FE, 0x63A5], str "link",
  str "article", str "item", [0x6700, 0x65B0]]

/-- `确认|审批|approve|confirm`. -/
def approvalWords : List Str := [[0x786E, 0x8BA4], [0x5BA1, 0x6279], str "approve", str "confirm"]

/-- `删除|移除|delete|remove`. -/
def deleteWords : List Str := [[0x5220, 0x9664], [0x79FB, 0x9664], str "delete", str "remove"]

/-- `点击|click|按下`. -/
def clickWords : List Str := [[0x70B9, 0x51FB], str "click", [0x6309, 0x4E0B]]

/-- `输入|填写|键入|type|fill`. -/
def inputWords : List Str := [[0x8F93, 0x5165], [0x586B, 0x5199], [0x952E, 0x5165], str "type",
  str "fill"]

/-- `悬停|hover|移到`. -/
def hoverWords : List Str := [[0x60AC, 0x505C], str "hover", [0x79FB, 0x5230]]

/-- `滚动|scroll|翻到`. -/
def scrollWords : List Str := [[0x6EDA, 0x52A8], str "scroll", [0x7FFB, 0x5230]]

/-- `打开|访问|导航|open|navigate|go to`. -/
def openWords : List Str := [[0x6253, 0x5F00], [0x8BBF, 0x95EE], [0x5BFC, 0x822A], str "open",
  str "navigate", str "go to"]

/-- `读取|查看|检查|识别|read|inspect|find|找到`. -/
def inspectWords : List Str := [[0x8BFB, 0x53D6], [0x67E5, 0x770B], [0x68C0, 0x67E5],
  [0x8BC6, 0x522B], str "read", str "inspect", str "find", [0x627E, 0x5230]]

/-- `完成|结束|返回结果|complete|done`. -/
def completeWords : List Str := [[0x5B8C, 0x6210], [0x7ED3, 0x675F],
  [0x8FD4, 0x56DE, 0x7ED3, 0x679C], str "complete", str "done"]

/-- `re.search("page.?access", text)`; the dot is no line break. -/
def mentionsPageAccess : Str → Bool
  | [] => false
  | c :: rest => pageAccessAt (c :: rest) || mentionsPageAccess rest
where
  pageAccessAt (s : Str) : Bool :=
    (str "page").isPrefixOf s && ((str "access").isPrefixOf (s.drop 4) ||
      (s[4]? ≠ some 10 && (str "access").isPrefixOf (s.drop 5)))

/-- The first operation the words of a description suggest. -/
def inferOperation (text : Str) : Option Operation :=
  if mentions text privacyWords || mentionsPageAccess text then some .pageAccess
  else if mentions text extractWords && mentions text listWords then some .extractList
  else if mentions text approvalWords then some .approval
  else if mentions text deleteWords then some .delete
  else if mentions text clickWords then some .click
  else if mentions text inputWords then some .input
  else if mentions text hoverWords then some .hover
  else if mentions text scrollWords then some .scroll
  else if mentions text openWords then some .openPage
  else if mentions text inspectWords then some .inspect
  else if mentions text completeWords then some .complete
  else none

/-- `str(value)`. -/
def pyText (env : Env) : Json → Str
  | .str s => s
  | v => env.repr v

/-- `_operation`. -/
def operationOf (host : CompileHost) (step : Json.Object) : Option Operation :=
  let action := textOr host.toEnv [] (Json.lookup (str "action") step)
  let explicit := textOr host.toEnv action (Json.lookup (str "operation") step)
  match Operation.ofName? (host.lower (strip explicit)) with
  | some op => some op
  | none => inferOperation (host.lower (textOr host.toEnv [] (Json.lookup (str "desc") step)))

/-! ## Transitions a description tells -/

/-- A letter of a pattern and a letter of the text, regardless of case: four letters outside
ASCII count as ASCII ones. -/
def sameLetter (p c : ℕ) : Bool :=
  c = p || (97 ≤ p && p ≤ 122 && c + 32 = p) || (p = 105 && (c = 0x130 || c = 0x131)) ||
    (p = 115 && c = 0x17F) || (p = 107 && c = 0x212A)

/-- What follows a literal at the start of a text, with the text it matched. -/
def literalAt : Str → Str → Option (Str × Str)
  | [], s => some ([], s)
  | _ :: _, [] => none
  | p :: ps, c :: s =>
    if sameLetter p c then (literalAt ps s).map fun m => (c :: m.1, m.2) else none

/-- `\d+`. -/
def digitsAt (host : CompileHost) (s : Str) : Option Str :=
  let digits := s.takeWhile fun c => host.isDecimal c
  if digits = [] then none else some digits

/-- `step[-_ ]?\d+`. -/
def stepReference (host : CompileHost) (s : Str) : Option Str :=
  (literalAt (str "step") s).bind fun m =>
    match m.2 with
    | [] => none
    | c :: rest =>
      ((if c = 45 ∨ c = 95 ∨ c = 32 then (digitsAt host rest).map (c :: ·) else none) <|>
        digitsAt host (c :: rest)).map (m.1 ++ ·)

/-- `step[-_ ]?\d+|words`. -/
def targetAt (host : CompileHost) (words : List Str) (s : Str) : Option Str :=
  stepReference host s <|> words.findSome? fun w => (literalAt w s).map Prod.fst

/-- `.*?(target)`: the first target before the end of the line. -/
def nextTarget (host : CompileHost) (words : List Str) : Str → Option Str
  | [] => targetAt host words []
  | c :: s => targetAt host words (c :: s) <|> if c = 10 then none else nextTarget host words s

/-- `re.search("(?:cue).*?(target)", text, re.IGNORECASE).group(1)`. -/
def searchTarget (host : CompileHost) (cues words : List Str) : Str → Option Str
  | [] => none
  | c :: s =>
    (cues.findSome? fun cue => (literalAt cue (c :: s)).bind fun m => nextTarget host words m.2) <|>
      searchTarget host cues words s

/-- `成功|success`. -/
def successCues : List Str := [[0x6210, 0x529F], str "success"]

/-- `找不到|未找到|not found`. -/
def notFoundCues : List Str := [[0x627E, 0x4E0D, 0x5230], [0x672A, 0x627E, 0x5230], str "not found"]

/-- `失败|错误|failed`. -/
def failedCues : List Str := [[0x5931, 0x8D25], [0x9519, 0x8BEF], str "failed"]

/-- `人工|用户|接管`. -/
def userCues : List Str := [[0x4EBA, 0x5DE5], [0x7528, 0x6237], [0x63A5, 0x7BA1]]

/-- `done|完成`. -/
def doneWords : List Str := [str "done", [0x5B8C, 0x6210]]

/-- `failed|失败`. -/
def failedWords : List Str := [str "failed", [0x5931, 0x8D25]]

/-- `pause|暂停`. -/
def pauseWords : List Str := [str "pause", [0x6682, 0x505C]]

/-- The name of a target: in small letters, with hyphens, terminals in English. -/
def targetName (host : CompileHost) (matched : Str) : Str :=
  let name := (host.lower matched).map fun c => if c = 95 ∨ c = 32 then 45 else c
  if name = [0x5B8C, 0x6210] then str "done"
  else if name = [0x5931, 0x8D25] then str "failed"
  else if name = [0x6682, 0x505C] then str "pause"
  else name

/-- `_parsed_transitions`. -/
def parsedTransitions (host : CompileHost) (description : Str) : Dict Str Str :=
  let found (cues words : List Str) : Option Str :=
    (searchTarget host cues words description).map (targetName host)
  let add (outcome : Str) (target : Option Str) (d : Dict Str Str) : Dict Str Str :=
    target.elim d (d.put outcome)
  add (str "needs_user") (found userCues pauseWords)
    (add (str "failed") (found failedCues failedWords)
      (add (str "not_found") (found notFoundCues failedWords)
        (add (str "success") (found successCues doneWords) .empty)))

/-! ## One step -/

/-- `str(step.get("name") or default).strip()`. -/
def stepName (host : CompileHost) (default : Str) (step : Json.Object) : Str :=
  strip (textOr host.toEnv default (Json.lookup (str "name") step))

def descriptionOf (host : CompileHost) (step : Json.Object) : Str :=
  strip (textOr host.toEnv [] (Json.lookup (str "desc") step))

/-- `requested_mode == "interpreted"`. -/
def interpreted (step : Json.Object) : Bool :=
  let mode :=
    match Json.lookup (str "execution") step with
    | some (.obj execution) => Json.lookup (str "mode") execution
    | other => other
  (mode.bind Json.str?) = some (str "interpreted")

/-- The operation a step is compiled to: what is interpreted is mostly an inspection. -/
def compiledOperation (host : CompileHost) (step : Json.Object) : Option Operation :=
  match operationOf host step with
  | some .aiClassify => some .aiClassify
  | some .aiExtract => some .aiExtract
  | some .aiTransform => some .aiTransform
  | some .agentCall => some .agentCall
  | some .assign => some .assign
  | some .condition => some .condition
  | op => if interpreted step then some .inspect else op

def compiledEffect (step : Json.Object) (op : Operation) : Effect :=
  if interpreted step && op = .inspect then .interact else effectOf op

/-- The transitions a step's author gives: those of its description under those of `on`. -/
def givenTransitions (host : CompileHost) (step : Json.Object) : Dict Str Str :=
  (parsedTransitions host (descriptionOf host step)).merge
    ((((Json.lookup (str "on") step).bind Json.obj?).getD []).map fun e =>
      (e.1, pyText host.toEnv e.2))

/-- The step after this one. -/
def nextStep (host : CompileHost) (steps : List Json) (index : ℕ) : Str :=
  match steps[index + 1]? with
  | some (.obj step) => ((Json.lookup (str "name") step).getD .null |> pyText host.toEnv)
  | _ => str "done"

/-- Where a step leads. -/
def routes (host : CompileHost) (steps : List Json) (index : ℕ) (step : Json.Object)
    (op : Operation) : Dict Str Str :=
  let given := if op = .complete then .empty
    else (givenTransitions host step).setDefault (str "success") (nextStep host steps index)
  let decided := if op = .condition then
      ((given.erase (str "success")).setDefault (str "true")
        ((given.get? (str "success")).getD (str "done"))).setDefault (str "false") (str "failed")
    else given
  decided.setDefault (str "failed") (str "failed")

/-- A compiled step, as far as the order of a run depends on it. -/
structure CompiledStep where
  id : Str
  sourceIndex : ℕ
  description : Str
  operation : Operation
  /-- What its author named, of a step that is interpreted. -/
  authoredOperation : Option (Option Operation)
  mode : Mode
  effect : Effect
  /-- `when`, where the step is carried out only for some inputs. -/
  when : Option Json.Object
  on : Dict Outcome Str

theorem ofName?_inj (k k' : Str) (o : Outcome) (h : Outcome.ofName? k = some o)
    (h' : Outcome.ofName? k' = some o) : k = k' := by
  have hk : o.name = k := by simpa using List.find?_some h
  have hk' : o.name = k' := by simpa using List.find?_some h'
  exact hk.symm.trans hk'

/-- `steps.<index>.<rest>`. -/
def stepPath (index : ℕ) (rest : Str) : Str := str "steps." ++ JsonText.natText index ++ rest

/-- What is wrong with one transition. -/
def routeErrors (names : List Str) (index : ℕ) (route : Str × Str) : List CompileError :=
  let path := stepPath index (str ".on." ++ route.1)
  if (Outcome.ofName? route.1).isNone then [⟨path, str "invalid_outcome"⟩]
  else if strip route.2 ∈ names ∨ strip route.2 ∈ terminals then []
  else [⟨path, str "unknown_target"⟩]

/-- The mode of a step, and whether it is one. -/
def modeOf (host : CompileHost) (step : Json.Object) (op : Operation) : Mode × Bool :=
  let raw :=
    match Json.lookup (str "execution") step with
    | some (.obj execution) => Json.lookup (str "mode") execution
    | some (.str s) => some (.str s)
    | _ => none
  let mode := Mode.ofName? (textOr host.toEnv (str "adaptive") raw)
  (if op = .assign ∨ op = .condition then .compiled else mode.getD .adaptive, mode.isSome)

/-! ### Conditions -/

/-- `when`, if it is an object. -/
def whenOf (step : Json.Object) : Option Json.Object :=
  (Json.lookup (str "when") step).bind Json.obj?

/-- `(source.get("inputs") or {}).get("properties", {})`; it may raise. -/
def declaredInputs (source : Json.Object) : Option Json :=
  match Json.lookup (str "inputs") source with
  | some (.obj inputs) => some ((Json.lookup (str "properties") inputs).getD (.obj []))
  | some v => if ModelSharing.truthy v then none else some (.obj [])
  | none => some (.obj [])

/-- The value of a member that is a boolean. -/
def boolOf (value : Option Json) : Option Bool :=
  match value with
  | some (.bool b) => some b
  | _ => none

/-- Whether a condition compares a declared boolean input with a boolean; what is no name may
raise where it is looked up. -/
def whenValid (properties : Json) (condition : Json.Object) : Option Bool :=
  match properties, Json.lookup (str "input") condition with
  | .obj declared, some (.str name) =>
    match Json.lookup name declared with
    | none => some false
    | some (.obj input) =>
      some ((Json.lookup (str "type") input).bind Json.str? = some (str "boolean") &&
        (boolOf (Json.lookup (str "equals") condition)).isSome)
    | some _ => none
  | .obj _, some (.arr _) => none
  | .obj _, some (.obj _) => none
  | .obj _, _ => some false
  | .arr items, some value => if items.any (Json.pyEq value) then none else some false
  | .str text, some (.str name) => if name <:+: text then none else some false
  | _, _ => none

/-- What is wrong with the condition of a step. -/
def whenErrors (source : Json.Object) (index : ℕ) (step : Json.Object) :
    Option (List CompileError) :=
  let invalid := [⟨stepPath index (str ".when"), str "invalid_condition"⟩]
  match Json.lookup (str "when") step with
  | none | some .null => some []
  | some (.obj condition) =>
    if Json.keysEq condition [str "input", str "equals"] then do
      let properties ← declaredInputs source
      let valid ← whenValid properties condition
      return if valid then [] else invalid
    else some invalid
  | some _ => some invalid

/-- A step without an operation is not looked at further. -/
def stepConditionErrors (host : CompileHost) (source : Json.Object) (index : ℕ)
    (step : Json.Object) : Option (List CompileError) :=
  if (compiledOperation host step).isNone then some [] else whenErrors source index step

/-- What is wrong with the conditions of the steps. -/
def conditionErrors (host : CompileHost) (source : Json.Object) :
    ℕ → List Json → Option (List CompileError)
  | _, [] => some []
  | index, .obj step :: rest => do
    let own ← stepConditionErrors host source index step
    let errors ← conditionErrors host source (index + 1) rest
    return own ++ errors
  | index, _ :: rest => conditionErrors host source (index + 1) rest

/-! ### Compiling -/

/-- One step: the errors, and what it is compiled to. -/
def compileStep (host : CompileHost) (steps : List Json) (names : List Str) (index : ℕ)
    (step : Json.Object) : List CompileError × Option CompiledStep :=
  match compiledOperation host step with
  | none => ([⟨stepPath index (str ".desc"), str "operation_ambiguous"⟩], none)
  | some op =>
    let routes := routes host steps index step op
    let mode := modeOf host step op
    (routes.entries.flatMap (routeErrors names index) ++
        (if mode.2 then [] else [⟨stepPath index (str ".execution.mode"), str "invalid_mode"⟩]),
      some
        { id := stepName host (str "step-" ++ JsonText.natText (index + 1)) step
          sourceIndex := index
          description := descriptionOf host step
          operation := op
          authoredOperation := if interpreted step then some (operationOf host step) else none
          mode := mode.1
          effect := compiledEffect step op
          when := whenOf step
          on := routes.rekey Outcome.ofName? strip ofName?_inj })

/-! ## One pipeline -/

structure SingleIr where
  agentType : Str
  sourceDigest : Str
  siteScope : List Json
  start : Option Str
  effects : List Effect
  inputs : Json.Object
  steps : List CompiledStep

/-- The names of the steps, in order. -/
def stepNames (host : CompileHost) : List Json → List Str
  | [] => []
  | .obj step :: rest => stepName host [] step :: stepNames host rest
  | _ :: rest => stepNames host rest

/-- What is wrong with the names, after those that were seen. -/
def nameErrors (host : CompileHost) (seen : List Str) (index : ℕ) : List Json → List CompileError
  | [] => []
  | .obj step :: rest =>
    let name := stepName host [] step
    let path := stepPath index (str ".name")
    (if name = [] then [⟨path, str "name_required"⟩]
      else if name ∈ terminals then [⟨path, str "reserved_step_name"⟩]
      else if name ∈ seen then [⟨path, str "duplicate_name"⟩]
      else []) ++ nameErrors host (seen ++ [name]) (index + 1) rest
  | _ :: rest => ⟨stepPath index [], str "step_not_object"⟩ :: nameErrors host seen (index + 1) rest

/-- Every step in its place. -/
def compileSteps (host : CompileHost) (steps : List Json) (names : List Str) :
    List (List CompileError × Option CompiledStep) :=
  steps.mapIdx fun index step =>
    match step with
    | .obj step => compileStep host steps names index step
    | _ => ([], none)

/-- An approval leads to the step when it is given. -/
def guarded (steps : List CompiledStep) (id : Str) : Bool :=
  steps.any fun s => s.operation = .approval && s.on.get? .success = some id

/-- What is compiled to a deletion asks for an approval. -/
def guardErrors (steps : List CompiledStep) : List CompileError :=
  (steps.mapIdx fun index step =>
    if step.operation = .delete ∧ ¬ guarded steps step.id then
      [⟨stepPath index [], str "destructive_step_requires_approval"⟩]
    else []).flatten

/-- `value or []`, of a list. -/
def listOr (value : Option Json) : Option (List Json) :=
  match value with
  | some (.arr items) => some items
  | some v => if ModelSharing.truthy v then none else some []
  | none => some []

/-- `text.replace("/**", "/")`. -/
def dropStars : Str → Str
  | 47 :: 42 :: 42 :: rest => 47 :: dropStars rest
  | c :: rest => c :: dropStars rest
  | [] => []

/-- What is wrong with a site scope. -/
def scopeErrors (host : CompileHost) : ℕ → List Json → Option (List CompileError)
  | _, [] => some []
  | index, scope :: rest => do
    let web ← host.siteUrl (dropStars (pyText host.toEnv scope))
    let errors ← scopeErrors host (index + 1) rest
    return (if web then [] else
      [⟨str "site_scope." ++ JsonText.natText index, str "invalid_site_scope"⟩]) ++ errors

/-- The steps of a pipeline; anything but a list has none. -/
def stepsOf (source : Json.Object) : List Json :=
  match Json.lookup (str "steps") source with
  | some (.arr steps) => steps
  | _ => []

def agentTypeOf (host : CompileHost) (source : Json.Object) : Str :=
  host.lower (strip (textOr host.toEnv (str "web") (Json.lookup (str "agent_type") source)))

/-- The effects of the steps, sorted by name. -/
def effectsOf (steps : List CompiledStep) : List Effect :=
  [Effect.destructive, .interact, .read, .restricted].filter fun e => steps.any fun s => s.effect = e

def emptySchema : Json := .obj [(str "type", .str (str "object")), (str "properties", .obj [])]

/-- The schema of the inputs; anything but an object is reported and replaced. -/
def inputsOf (source : Json.Object) : Json.Object :=
  match Json.lookup (str "inputs") source with
  | some (.obj (member :: members)) => member :: members
  | _ => [(str "type", .str (str "object")), (str "properties", .obj [])]

/-- `_compile_single_source`; the errors in another order. -/
def compileSingle (host : CompileHost) (source : Json.Object) :
    Option (SingleIr × List CompileError) := do
  let other ← host.otherErrors source
  let steps := stepsOf source
  let names := stepNames host steps
  let results := compileSteps host steps names
  let compiled := results.filterMap Prod.snd
  let scope := listOr (Json.lookup (str "site_scope") source)
  let scopes ← scopeErrors host 0 (scope.getD [])
  let conditions ← conditionErrors host source 0 steps
  let digest ← host.digest (.obj source)
  let agentType := agentTypeOf host source
  let errors := (if agentType = str "web" then [] else
        [⟨str "agent_type", str "builder_not_available"⟩]) ++ other ++
      (if steps = [] then [⟨str "steps", str "steps_required"⟩] else []) ++
      nameErrors host [] 0 steps ++ results.flatMap Prod.fst ++ conditions ++
      (if scope.isNone then [⟨str "site_scope", str "scope_not_array"⟩] else []) ++ scopes ++
      guardErrors compiled ++
      (if Effect.restricted ∈ effectsOf compiled then [⟨str "steps", str "restricted_effect"⟩] else [])
  return (
    { agentType := agentType
      sourceDigest := digest
      siteScope := scope.getD []
      start := compiled.head?.map CompiledStep.id
      effects := effectsOf compiled
      inputs := inputsOf source
      steps := compiled }, errors)

/-! ## A source of several capabilities -/

/-- A compiled pipeline, with the id of its capability; a source without capabilities is
one pipeline without an id. -/
structure Pipeline where
  capabilityId : Option Str
  ir : SingleIr

structure CompileResult where
  siteScope : List Json
  pipelines : List Pipeline
  sourceDigest : Str
  errors : List CompileError

/-- `re.fullmatch(r"[a-z][a-z0-9-]{0,79}", id)`. -/
def capabilityIdValid : Str → Bool
  | [] => false
  | c :: rest => 97 ≤ c && c ≤ 122 && rest.length ≤ 79 &&
    rest.all fun c => (97 ≤ c && c ≤ 122) || (48 ≤ c && c ≤ 57) || c = 45

/-- `value or default`. -/
def jsonOr (default : Json) : Option Json → Json
  | some v => if ModelSharing.truthy v then v else default
  | none => default

/-- The source of one capability's pipeline. -/
def subsource (host : CompileHost) (source capability : Json.Object) (id exportName : Str) :
    Json.Object :=
  let own (key : Str) : Option Json := Json.lookup key capability
  let shared (key : Str) : Option Json := Json.lookup key source
  let sharedGoal := strip (textOr host.toEnv
    (textOr host.toEnv [] (shared (str "description"))) (shared (str "working_goal")))
  let ownGoal := strip (textOr host.toEnv [] (own (str "working_goal")))
  [(str "schema", .str (str "ai2apps.agent-source/v1")),
    (str "agent_type", (shared (str "agent_type")).getD (.str (str "web"))),
    (str "name", jsonOr (.str id) (own (str "title"))),
    (str "model_profile", (own (str "model_profile")).getD
      ((shared (str "model_profile")).getD (.str (str "normal")))),
    (str "description", (shared (str "description")).getD (.str [])),
    (str "working_goal", .str (if ownGoal = [] then sharedGoal else ownGoal)),
    (str "site_scope", (shared (str "site_scope")).getD (.arr [])),
    (str "inputs", jsonOr emptySchema (own (str "inputs"))),
    (str "outputs", jsonOr emptySchema (own (str "outputs"))),
    (str "steps", (own (str "steps")).getD (.arr [])),
    (str "variables", (own (str "variables")).getD ((shared (str "variables")).getD emptySchema)),
    (str "fixtures", (own (str "fixtures")).getD (.arr [])),
    (str "validators", (own (str "validators")).getD (.arr [])),
    (str "capability_exports", .arr [.obj [(str "name", .str exportName),
      (str "description", (own (str "description")).getD (.str [])),
      (str "effects", (own (str "effects")).getD (.arr [.str (str "read")]))]])]

/-- `capability.get("enabled") is False`. -/
def disabled (capability : Json.Object) : Bool :=
  match Json.lookup (str "enabled") capability with
  | some (.bool false) => true
  | _ => false

def capabilityIdOf (host : CompileHost) (capability : Json.Object) : Str :=
  strip (textOr host.toEnv [] (Json.lookup (str "id") capability))

/-- `text.rstrip(".")`. -/
def dropDots (s : Str) : Str := (s.reverse.dropWhile fun c => c = 46).reverse

/-- An error of a capability's pipeline, under the capability's path. -/
def CompileError.under (front : Str) (e : CompileError) : CompileError :=
  { e with path := dropDots (front ++ str "." ++ e.path) }

/-- The capabilities from one on, after the ids and export names that were seen. -/
def compileCapabilities (host : CompileHost) (source : Json.Object) (index : ℕ)
    (ids exports : List Str) : List Json → Option (List CompileError × List Pipeline)
  | [] => some ([], [])
  | item :: rest =>
    let front := str "capabilities." ++ JsonText.natText index
    match item with
    | .obj capability =>
      if disabled capability then compileCapabilities host source (index + 1) ids exports rest
      else
        let id := capabilityIdOf host capability
        let exportName := strip (textOr host.toEnv (str "site." ++ id)
          (Json.lookup (str "name") capability))
        if !capabilityIdValid id then
          (compileCapabilities host source (index + 1) ids exports rest).map fun r =>
            (⟨front ++ str ".id", str "invalid_capability_id"⟩ :: r.1, r.2)
        else if id ∈ ids then
          (compileCapabilities host source (index + 1) ids exports rest).map fun r =>
            (⟨front ++ str ".id", str "duplicate_capability_id"⟩ :: r.1, r.2)
        else if exportName ∈ exports then
          (compileCapabilities host source (index + 1) (id :: ids) exports rest).map fun r =>
            (⟨front ++ str ".name", str "duplicate_capability"⟩ :: r.1, r.2)
        else do
          let compiled ← compileSingle host (subsource host source capability id exportName)
          let r ← compileCapabilities host source (index + 1) (id :: ids) (exportName :: exports) rest
          return (compiled.2.map (CompileError.under front) ++ r.1, ⟨some id, compiled.1⟩ :: r.2)
    | _ => (compileCapabilities host source (index + 1) ids exports rest).map fun r =>
        (⟨front, str "capability_not_object"⟩ :: r.1, r.2)

/-- `list(value or [])`. -/
def listOf (value : Option Json) : Option (List Json) :=
  match value with
  | some (.arr items) => some items
  | some (.str s) => some (s.map fun c => .str [c])
  | some (.obj members) => some (members.map fun m => .str m.1)
  | some v => if ModelSharing.truthy v then none else some []
  | none => some []

/-- The capabilities of a source; anything but a list has none. -/
def capabilitiesOf (capabilities : Json) : List Json :=
  match capabilities with
  | .arr items => items
  | _ => []

/-- `compile_source` of a source with capabilities. -/
def compileSite (host : CompileHost) (source : Json.Object) (capabilities : Json) :
    Option CompileResult := do
  let digest ← host.digest (.obj source)
  let items := capabilitiesOf capabilities
  let (errors, pipelines) ← compileCapabilities host source 0 [] [] items
  let errors := (if items = [] then [⟨str "capabilities", str "capabilities_required"⟩] else []) ++ errors
  let siteScope ← listOf (Json.lookup (str "site_scope") source)
  return {
      siteScope := siteScope
      pipelines := pipelines
      sourceDigest := digest
      errors := if pipelines = [] ∧ errors = [] then
          [⟨str "capabilities", str "enabled_capability_required"⟩]
        else errors }

/-- `compile_source`: a source without capabilities is one pipeline. -/
def compileSource (host : CompileHost) (source : Json.Object) : Option CompileResult :=
  match Json.lookup (str "capabilities") source with
  | none | some .null =>
    (compileSingle host source).map fun compiled =>
      { siteScope := compiled.1.siteScope
        pipelines := [⟨none, compiled.1⟩]
        sourceDigest := compiled.1.sourceDigest
        errors := compiled.2 }
  | some capabilities => compileSite host source capabilities

/-- `CompileResult.valid`. -/
def CompileResult.valid (result : CompileResult) : Bool := result.errors.isEmpty

end AI2Apps.AgentBuilder
