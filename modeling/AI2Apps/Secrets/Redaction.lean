import AI2Apps.Lib.Faults
import AI2Apps.Lib.Glob
import AI2Apps.Lib.Json
import AI2Apps.Lib.Provenance

/-!
# Injected secrets and their redaction

`secrets/repository.py`: the arguments of a call with the secrets they refer to put in, and the
output of the call with the values of these secrets taken out.

* `resolve`, `resolve_spec`: the value of a secret, for a tool that may have it.
* `injectArguments`, `injectArguments_spec`: the arguments with their secrets, and the values that
  were put in, in the order in which they were found.
* `redact`, `texts_redact`, `names_redact`: the texts of an output are redacted one by one; its keys
  are as they were.
-/

namespace AI2Apps.Secrets

open Faults TextReplace Provenance

/-! ## Secrets -/

/-- `secret_records.status`. -/
inductive Status where
  | active
  | deleted
  deriving DecidableEq

/-- A row of `secret_records`. -/
structure SecretRow where
  id : Str
  backendKey : Str
  allowedTools : List Str
  status : Status
  deriving DecidableEq

/-- A tool with the service behind it. -/
structure Consumer where
  qualifiedName : Str
  source : Str
  executionMode : Str
  deriving DecidableEq

/-- The recorded events; none has a value. -/
inductive Event where
  | injectionDenied (secretId toolName reason : Str)
  | injected (secretId toolName : Str)
  deriving DecidableEq

inductive Error where
  | resourceNotFound (resourceType resourceId : Str)
  | resourceConflict (message : Str)
  /-- What the backend raises. -/
  | backend (message : Str)
  deriving DecidableEq

/-- The store of secrets; `load` is the backend. -/
structure Repository where
  secrets : List SecretRow
  consumers : List Consumer
  load : Str → Except Str Str
  events : List Event

/-- `events.append`. -/
def Repository.append (event : Event) (r : Repository) : Repository :=
  { r with events := r.events ++ [event] }

/-- `_resolve`: a denial is recorded before it is raised, a disclosure after the value is there. -/
def resolve (secretId toolName : Str) : EStateM Error Repository Str := do
  let r ← get
  let consumer := r.consumers.find? fun c => c.qualifiedName = toolName
  let row ← orThrow (.resourceNotFound (str "secret") secretId)
    (r.secrets.find? fun s => s.id = secretId ∧ s.status = .active)
  only (∃ c ∈ consumer, c.source = str "installed" ∧ c.executionMode = str "external") do
    modify (Repository.append (.injectionDenied secretId toolName (str "external_service")))
    throw (.resourceConflict (str ("Installed external Services cannot receive Secret values; " ++
      "use a managed Service or a Host-brokered provider operation")))
  only (¬ row.allowedTools.any (Glob.fnmatchcase toolName)) do
    modify (Repository.append (.injectionDenied secretId toolName (str "tool_scope")))
    throw (.resourceConflict (str "Secret " ++ secretId ++ str " is not allowed for " ++ toolName))
  match r.load row.backendKey with
  | .error message => throw (.backend message)
  | .ok value =>
    modify (Repository.append (.injected secretId toolName))
    pure value

/-! ## Injection -/

/-- The repository during an injection, with what was put in so far. -/
structure Injecting where
  repository : Repository
  values : List Str
  ids : List Str

/-- `SecretInjection`. -/
structure SecretInjection where
  arguments : Json
  sensitiveValues : List Str
  secretIds : List Str

/-- A secret is resolved and noted. -/
def disclose (secretId toolName : Str) : EStateM Error Injecting Str := fun s =>
  match (resolve secretId toolName).run s.repository with
  | .ok value r => .ok value ⟨r, s.values ++ [value], s.ids ++ [secretId]⟩
  | .error e r => .error e { s with repository := r }

mutual

/-- `inject`: keys are not looked at. -/
def inject (toolName : Str) : Json → EStateM Error Injecting Json
  | .str s =>
    if str "secret://sec_" <+: s then do
      return .str (← disclose (s.drop (str "secret://").length) toolName)
    else pure (.str s)
  | .obj members => do return .obj (← injectMembers toolName members)
  | .arr items => do return .arr (← injectItems toolName items)
  | value => pure value

def injectMembers (toolName : Str) : List (Str × Json) → EStateM Error Injecting (List (Str × Json))
  | [] => pure []
  | (key, item) :: rest => do
    let item ← inject toolName item
    let rest ← injectMembers toolName rest
    return (key, item) :: rest

def injectItems (toolName : Str) : List Json → EStateM Error Injecting (List Json)
  | [] => pure []
  | item :: rest => do
    let item ← inject toolName item
    let rest ← injectItems toolName rest
    return item :: rest

end

/-- `inject_arguments`. -/
def injectArguments (arguments : Json.Object) (toolName : Str) :
    EStateM Error Repository SecretInjection := fun r =>
  match (inject toolName (.obj arguments)).run ⟨r, [], []⟩ with
  | .ok injected s => .ok ⟨injected, s.values, s.ids⟩ s.repository
  | .error e s => .error e s.repository

/-! ## Redaction -/

/-- What stands for a secret. -/
def marker : Str := str "[secret]"

/-- `redact` of a text: the values are replaced in turn. -/
def redactText (sensitiveValues : List Str) (value : Str) : Str :=
  sensitiveValues.foldl (fun result secret => if secret = [] then result else replace result secret marker) value

mutual

/-- `redact`; `services/registry.py` has its own copy, which is the same. -/
def redact (sensitiveValues : List Str) : Json → Json
  | .obj members => .obj (redactMembers sensitiveValues members)
  | .arr items => .arr (redactItems sensitiveValues items)
  | .str s => .str (redactText sensitiveValues s)
  | value => value

def redactMembers (sensitiveValues : List Str) : List (Str × Json) → List (Str × Json)
  | [] => []
  | (key, item) :: rest => (key, redact sensitiveValues item) :: redactMembers sensitiveValues rest

def redactItems (sensitiveValues : List Str) : List Json → List Json
  | [] => []
  | item :: rest => redact sensitiveValues item :: redactItems sensitiveValues rest

end

/-! ## The strings of a value -/

mutual

/-- The strings that are values. -/
def texts : Json → List Str
  | .str s => [s]
  | .arr items => itemsTexts items
  | .obj members => membersTexts members
  | _ => []

def itemsTexts : List Json → List Str
  | [] => []
  | item :: rest => texts item ++ itemsTexts rest

def membersTexts : List (Str × Json) → List Str
  | [] => []
  | (_, item) :: rest => texts item ++ membersTexts rest

end

mutual

/-- The strings that are keys. -/
def names : Json → List Str
  | .arr items => itemsNames items
  | .obj members => membersNames members
  | _ => []

def itemsNames : List Json → List Str
  | [] => []
  | item :: rest => names item ++ itemsNames rest

def membersNames : List (Str × Json) → List Str
  | [] => []
  | (key, item) :: rest => key :: (names item ++ membersNames rest)

end

variable (values : List Str)

mutual

/-- **The texts of an output are redacted one by one.** -/
theorem texts_redact : ∀ output, texts (redact values output) = (texts output).map (redactText values)
  | .null | .bool _ | .int _ | .float _ => rfl
  | .str _ => rfl
  | .arr items => texts_redactItems items
  | .obj members => texts_redactMembers members

theorem texts_redactItems : ∀ items,
    itemsTexts (redactItems values items) = (itemsTexts items).map (redactText values)
  | [] => rfl
  | item :: rest => by
    rw [redactItems, itemsTexts, texts_redact item, texts_redactItems rest, ← List.map_append, itemsTexts]

theorem texts_redactMembers : ∀ members,
    membersTexts (redactMembers values members) = (membersTexts members).map (redactText values)
  | [] => rfl
  | (key, item) :: rest => by
    rw [redactMembers, membersTexts, texts_redact item, texts_redactMembers rest, ← List.map_append,
      membersTexts]

end

mutual

/-- **The keys of an output are as they were.** -/
theorem names_redact : ∀ output, names (redact values output) = names output
  | .null | .bool _ | .int _ | .float _ => rfl
  | .str _ => rfl
  | .arr items => names_redactItems items
  | .obj members => names_redactMembers members

theorem names_redactItems : ∀ items, itemsNames (redactItems values items) = itemsNames items
  | [] => rfl
  | item :: rest => by
    rw [redactItems, itemsNames, names_redact item, names_redactItems rest, itemsNames]

theorem names_redactMembers : ∀ members, membersNames (redactMembers values members) = membersNames members
  | [] => rfl
  | (key, item) :: rest => by
    rw [redactMembers, membersNames, names_redact item, names_redactMembers rest, membersNames]

end

mutual

/-- An output whose texts are left as they are is left as it is. -/
theorem redact_eq_self : ∀ output, (∀ s ∈ texts output, redactText values s = s) →
    redact values output = output
  | .null, _ | .bool _, _ | .int _, _ | .float _, _ => rfl
  | .str s, h => congrArg Json.str (h s (List.mem_singleton_self s))
  | .arr items, h => congrArg Json.arr (redactItems_eq_self items h)
  | .obj members, h => congrArg Json.obj (redactMembers_eq_self members h)

theorem redactItems_eq_self : ∀ items, (∀ s ∈ itemsTexts items, redactText values s = s) →
    redactItems values items = items
  | [], _ => rfl
  | item :: rest, h => by
    rw [redactItems, redact_eq_self item fun s hs => h s (List.mem_append_left _ hs),
      redactItems_eq_self rest fun s hs => h s (List.mem_append_right _ hs)]

theorem redactMembers_eq_self : ∀ members, (∀ s ∈ membersTexts members, redactText values s = s) →
    redactMembers values members = members
  | [], _ => rfl
  | (key, item) :: rest, h => by
    rw [redactMembers, redact_eq_self item fun s hs => h s (List.mem_append_left _ hs),
      redactMembers_eq_self rest fun s hs => h s (List.mem_append_right _ hs)]

end

/-! ## What is put in -/

/-- The tool may have the secret, and this is its value. -/
structure Disclosable (r : Repository) (toolName secretId value : Str) : Prop where
  row : ∃ row ∈ r.secrets, row.id = secretId ∧ row.status = .active ∧
    (∃ pattern ∈ row.allowedTools, Glob.fnmatchcase toolName pattern = true) ∧ r.load row.backendKey = .ok value
  inside : ∀ c, r.consumers.find? (fun c => c.qualifiedName = toolName) = some c →
    ¬ (c.source = str "installed" ∧ c.executionMode = str "external")

/-- **A value is disclosed only to a tool that may have it, and the disclosure is recorded.** -/
theorem resolve_spec (secretId toolName : Str) (r : Repository) : wp (resolve secretId toolName)
    (fun value later => Disclosable r toolName secretId value ∧
      later = r.append (.injected secretId toolName))
    (fun _ later => later = r ∨ ∃ reason, later = r.append (.injectionDenied secretId toolName reason)) r := by
  unfold resolve
  rw [wp_bind, wp_get, wp_bind, wp_orThrow]
  refine ⟨fun row hrow => ?_, fun _ => Or.inl rfl⟩
  have hfound := List.find?_some hrow
  have hmem := List.mem_of_find?_eq_some hrow
  rw [decide_eq_true_eq] at hfound
  by_cases houtside : ∃ c ∈ r.consumers.find? (fun c => c.qualifiedName = toolName),
      c.source = str "installed" ∧ c.executionMode = str "external"
  · rw [wp_bind, wp_only_pos houtside, wp_bind, wp_modify, wp_throw]
    exact Or.inr ⟨_, rfl⟩
  · rw [wp_bind, wp_only_neg houtside]
    by_cases hallowed : row.allowedTools.any (Glob.fnmatchcase toolName) = true
    · rw [wp_bind, wp_only_neg (not_not_intro hallowed)]
      rcases hload : r.load row.backendKey with message | value
      · exact Or.inl rfl
      · rw [wp_bind, wp_modify, wp_pure]
        refine ⟨⟨⟨row, hmem, hfound.1, hfound.2, List.any_eq_true.mp hallowed, hload⟩, fun c hc hbad => ?_⟩, rfl⟩
        exact houtside ⟨c, hc, hbad⟩
    · rw [wp_bind, wp_only_pos hallowed, wp_bind, wp_modify, wp_throw]
      exact Or.inr ⟨_, rfl⟩

/-- From one state of an injection to a later one: the secrets between them were disclosed. -/
def Disclosed (toolName : Str) (s later : Injecting) : Prop :=
  ∃ secrets : List (Str × Str), (∀ z ∈ secrets, Disclosable s.repository toolName z.1 z.2) ∧
    later.ids = s.ids ++ secrets.map Prod.fst ∧ later.values = s.values ++ secrets.map Prod.snd ∧
    later.repository = { s.repository with
      events := s.repository.events ++ secrets.map fun z => .injected z.1 toolName }

theorem Disclosed.refl (toolName : Str) (s : Injecting) : Disclosed toolName s s := by
  refine ⟨[], fun _ h => absurd h List.not_mem_nil, ?_, ?_, ?_⟩ <;> simp

theorem Disclosed.trans {toolName : Str} {s s' s'' : Injecting} (h : Disclosed toolName s s')
    (h' : Disclosed toolName s' s'') : Disclosed toolName s s'' := by
  obtain ⟨secrets, hsecrets, hids, hvalues, hrepository⟩ := h
  obtain ⟨secrets', hsecrets', hids', hvalues', hrepository'⟩ := h'
  have hsame : ∀ id value, Disclosable s'.repository toolName id value →
      Disclosable s.repository toolName id value := by
    intro id value hd
    rw [hrepository] at hd
    exact ⟨hd.row, hd.inside⟩
  refine ⟨secrets ++ secrets', fun z hz => ?_, ?_, ?_, ?_⟩
  · exact (List.mem_append.mp hz).elim (hsecrets z) fun hz => hsame _ _ (hsecrets' z hz)
  · rw [hids', hids, List.map_append, List.append_assoc]
  · rw [hvalues', hvalues, List.map_append, List.append_assoc]
  · rw [hrepository', hrepository]
    simp only [List.map_append, List.append_assoc]

theorem Disclosed.mem_values {toolName : Str} {s later : Injecting} (h : Disclosed toolName s later) {t : Str}
    (ht : t ∈ s.values) : t ∈ later.values := by
  obtain ⟨secrets, -, -, hvalues, -⟩ := h
  rw [hvalues]
  exact List.mem_append_left _ ht

theorem disclose_spec (secretId toolName : Str) (s : Injecting) : wp (disclose secretId toolName)
    (fun value later => Disclosed toolName s later ∧ value ∈ later.values) (fun _ _ => True) s := by
  cases hr : (resolve secretId toolName).run s.repository with
  | error e r =>
    have hrun : (disclose secretId toolName).run s = .error e { s with repository := r } := by
      change disclose secretId toolName s = _
      rw [disclose, hr]
    rw [wp_of_error hrun]
    trivial
  | ok value r =>
    have hrun : (disclose secretId toolName).run s =
        .ok value ⟨r, s.values ++ [value], s.ids ++ [secretId]⟩ := by
      change disclose secretId toolName s = _
      rw [disclose, hr]
    obtain ⟨hd, hlater⟩ := (wp_of_ok hr).mp (resolve_spec secretId toolName s.repository)
    rw [wp_of_ok hrun]
    refine ⟨⟨[(secretId, value)], fun z hz => ?_, rfl, rfl, hlater⟩, ?_⟩
    · rw [List.mem_singleton.mp hz]
      exact hd
    · exact List.mem_append_right _ (List.mem_singleton_self value)

/-- A text of injected arguments was there and refers to no secret, or is a value that was noted. -/
def Accounted (before after values : List Str) : Prop :=
  ∀ t ∈ after, (t ∈ before ∧ ¬ str "secret://sec_" <+: t) ∨ t ∈ values

theorem Accounted.append {before before' after after' values : List Str} (h : Accounted before after values)
    (h' : Accounted before' after' values) : Accounted (before ++ before') (after ++ after') values := by
  intro t ht
  rcases List.mem_append.mp ht with ht | ht
  · exact (h t ht).imp_left fun h => ⟨List.mem_append_left _ h.1, h.2⟩
  · exact (h' t ht).imp_left fun h => ⟨List.mem_append_right _ h.1, h.2⟩

theorem Accounted.later {before after : List Str} {toolName : Str} {s s' : Injecting}
    (h : Accounted before after s.values) (hlater : Disclosed toolName s s') :
    Accounted before after s'.values :=
  fun t ht => (h t ht).imp_right hlater.mem_values

variable (toolName : Str)

mutual

theorem inject_spec : ∀ (value : Json) (s : Injecting), wp (inject toolName value)
    (fun injected later => Disclosed toolName s later ∧ Accounted (texts value) (texts injected) later.values)
    (fun _ _ => True) s
  | .null, s | .bool _, s | .int _, s | .float _, s =>
    ⟨Disclosed.refl toolName s, fun _ ht => absurd ht List.not_mem_nil⟩
  | .str t, s => by
    rw [inject]
    split_ifs with href
    · rw [wp_bind]
      refine wp_mono (disclose_spec _ toolName s) (fun value later h => ?_) fun _ _ h => h
      rw [wp_pure]
      refine ⟨h.1, fun u hu => Or.inr ?_⟩
      rw [List.mem_singleton.mp hu]
      exact h.2
    · rw [wp_pure]
      refine ⟨Disclosed.refl toolName s, fun u hu => Or.inl ⟨hu, ?_⟩⟩
      rwa [List.mem_singleton.mp hu]
  | .arr items, s => by
    rw [inject, wp_bind]
    exact wp_mono (injectItems_spec items s) (fun _ _ h => h) fun _ _ h => h
  | .obj members, s => by
    rw [inject, wp_bind]
    exact wp_mono (injectMembers_spec members s) (fun _ _ h => h) fun _ _ h => h

theorem injectItems_spec : ∀ (items : List Json) (s : Injecting), wp (injectItems toolName items)
    (fun injected later => Disclosed toolName s later ∧
      Accounted (itemsTexts items) (itemsTexts injected) later.values) (fun _ _ => True) s
  | [], s => ⟨Disclosed.refl toolName s, fun _ ht => absurd ht List.not_mem_nil⟩
  | item :: rest, s => by
    rw [injectItems, wp_bind]
    refine wp_mono (inject_spec item s) (fun injected later h => ?_) fun _ _ h => h
    rw [wp_bind]
    refine wp_mono (injectItems_spec rest later) (fun injected' later' h' => ?_) fun _ _ h => h
    rw [wp_pure]
    exact ⟨h.1.trans h'.1, (h.2.later h'.1).append h'.2⟩

theorem injectMembers_spec : ∀ (members : List (Str × Json)) (s : Injecting), wp (injectMembers toolName members)
    (fun injected later => Disclosed toolName s later ∧
      Accounted (membersTexts members) (membersTexts injected) later.values) (fun _ _ => True) s
  | [], s => ⟨Disclosed.refl toolName s, fun _ ht => absurd ht List.not_mem_nil⟩
  | (key, item) :: rest, s => by
    rw [injectMembers, wp_bind]
    refine wp_mono (inject_spec item s) (fun injected later h => ?_) fun _ _ h => h
    rw [wp_bind]
    refine wp_mono (injectMembers_spec rest later) (fun injected' later' h' => ?_) fun _ _ h => h
    rw [wp_pure]
    exact ⟨h.1.trans h'.1, (h.2.later h'.1).append h'.2⟩

end

/-- **The values of an injection are those of secrets the tool may have, in the order of their
events, and every text that refers to a secret has become one of them.** -/
theorem injectArguments_spec (arguments : Json.Object) (r : Repository) :
    wp (injectArguments arguments toolName) (fun injection later =>
      ∃ secrets : List (Str × Str), (∀ z ∈ secrets, Disclosable r toolName z.1 z.2) ∧
        injection.secretIds = secrets.map Prod.fst ∧ injection.sensitiveValues = secrets.map Prod.snd ∧
        later.events = r.events ++ secrets.map (fun z => .injected z.1 toolName) ∧
        Accounted (texts (.obj arguments)) (texts injection.arguments) injection.sensitiveValues)
      (fun _ _ => True) r := by
  cases hi : (inject toolName (.obj arguments)).run ⟨r, [], []⟩ with
  | error e s =>
    have hrun : (injectArguments arguments toolName).run r = .error e s.repository := by
      change injectArguments arguments toolName r = _
      rw [injectArguments, hi]
    rw [wp_of_error hrun]
    trivial
  | ok injected s =>
    have hrun : (injectArguments arguments toolName).run r = .ok ⟨injected, s.values, s.ids⟩ s.repository := by
      change injectArguments arguments toolName r = _
      rw [injectArguments, hi]
    obtain ⟨⟨secrets, hsecrets, hids, hvalues, hrepository⟩, haccounted⟩ :=
      (wp_of_ok hi).mp (inject_spec toolName (.obj arguments) ⟨r, [], []⟩)
    rw [wp_of_ok hrun]
    exact ⟨secrets, hsecrets, hids, hvalues, congrArg Repository.events hrepository, haccounted⟩

end AI2Apps.Secrets
