import AI2Apps.AgentBuilder.Compiler

/-!
# Compiled agents are closed; what guards their deletions

A source that compiles without errors gives pipelines whose steps have distinct ids and
lead nowhere but to steps of the pipeline or to a terminal.  Whether a deletion is entered
from a given approval only is another matter: the compiler asks for one approval that leads
to what is compiled to a deletion, says nothing of the other steps that lead there, does
not ask at all when the deletion is interpreted, and takes an approval for one that the
executor skips when its condition is not met.

* `CompiledStep.skips`, `Visited`: the executor, `agents/browser_builder.py`, as far as it
  decides where a run goes.
* `ClosedIr`, `GuardsDeletes`, `RunsGuarded`: what is asked of a pipeline.
* `Leads`, `StepsGuarded`, `SourceGuards`: where the author of a source lets a step lead.
* `compileSingle_closed`, `guardsDeletes_iff`: one pipeline.
* `compiled_agents_guarded`: a whole source.
-/

namespace AI2Apps.AgentBuilder

open TextOrder (strip)
open Capabilities (lower)

/-! ## Runs of a pipeline -/

/-- What the executor compares with a condition: an input of the invocation, or its default. -/
def inputValue (inputs invocation : Json.Object) (name : Str) : Option Json :=
  (Json.lookup name invocation).or
    ((((Json.lookup (str "properties") inputs).bind Json.obj?).bind fun declared =>
      (Json.lookup name declared).bind Json.obj?).bind (Json.lookup (str "default")))

/-- Whether the executor skips a step whose condition is not met; `none` where it raises. -/
def CompiledStep.skips (s : CompiledStep) (inputs invocation : Json.Object) : Option Bool :=
  match s.when with
  | none => some false
  | some condition =>
    match Json.lookup (str "input") condition, boolOf (Json.lookup (str "equals") condition) with
    | some (.str name), some b => some (boolOf (inputValue inputs invocation name) ≠ some b)
    | _, _ => none

/-- `on.get("skipped") or on.get("success") or "failed"`. -/
def CompiledStep.skipTarget (s : CompiledStep) : Str :=
  (((s.on.get? .skipped).filter fun t => t ≠ []).or
    ((s.on.get? .success).filter fun t => t ≠ [])).getD (str "failed")

/-- How a run left a step: by a transition, skipping it, or with no transition to follow. -/
inductive Way where
  | took (o : Outcome)
  | skipped
  | lost
  deriving DecidableEq

/-- Where a run of an invocation is, and the steps it has left, the last one first. -/
inductive Visited (ir : SingleIr) (invocation : Json.Object) : List (Str × Way) → Str → Prop
  | start {id : Str} : ir.start = some id → Visited ir invocation [] id
  | move {s : CompiledStep} {o : Outcome} {t : Str} {trail : List (Str × Way)} :
      Visited ir invocation trail s.id → s ∈ ir.steps →
      s.skips ir.inputs invocation = some false → (o, t) ∈ s.on.entries →
      Visited ir invocation ((s.id, .took o) :: trail) t
  | skip {s : CompiledStep} {trail : List (Str × Way)} :
      Visited ir invocation trail s.id → s ∈ ir.steps → s.skips ir.inputs invocation = some true →
      Visited ir invocation ((s.id, .skipped) :: trail) s.skipTarget
  | lost {s : CompiledStep} {trail : List (Str × Way)} :
      Visited ir invocation trail s.id → s ∈ ir.steps →
      s.skips ir.inputs invocation = some false →
      Visited ir invocation ((s.id, .lost) :: trail) (str "failed")

/-! ## What is asked of a pipeline -/

/-- `authored_operation`, or the operation where the step is compiled as authored. -/
def CompiledStep.authored (s : CompiledStep) : Option Operation :=
  s.authoredOperation.getD (some s.operation)

/-- A pipeline that leads out of itself only by a terminal, and whose conditions can be decided. -/
structure ClosedIr (ir : SingleIr) : Prop where
  nodup : (ir.steps.map CompiledStep.id).Nodup
  proper : ∀ s ∈ ir.steps, s.id ∉ terminals
  start : ∃ s ∈ ir.steps, ir.start = some s.id
  targets : ∀ s ∈ ir.steps, ∀ o t, (o, t) ∈ s.on.entries →
    t ∈ ir.steps.map CompiledStep.id ∨ t ∈ terminals
  skips : ∀ s ∈ ir.steps, s.skipTarget ∈ ir.steps.map CompiledStep.id ∨ s.skipTarget ∈ terminals
  conditions : ∀ s ∈ ir.steps, ∀ invocation, (s.skips ir.inputs invocation).isSome = true

/-- Every way into a step that was authored as a deletion is an approval that was given. -/
structure GuardsDeletes (ir : SingleIr) : Prop where
  start : ∀ d ∈ ir.steps, ir.start = some d.id → d.authored ≠ some .delete
  entries : ∀ s ∈ ir.steps, ∀ o t, (o, t) ∈ s.on.entries → ∀ d ∈ ir.steps, d.id = t →
    d.authored = some .delete → s.operation = .approval ∧ o = .success
  skips : ∀ s ∈ ir.steps, s.when.isSome = true → ∀ d ∈ ir.steps, d.id = s.skipTarget →
    d.authored ≠ some .delete

instance guardsDeletesDecidable (ir : SingleIr) : Decidable (GuardsDeletes ir) :=
  decidable_of_iff
    ((∀ d ∈ ir.steps, ir.start = some d.id → d.authored ≠ some .delete) ∧
      (∀ s ∈ ir.steps, ∀ e ∈ s.on.entries, ∀ d ∈ ir.steps, d.id = e.2 → d.authored = some .delete →
        s.operation = .approval ∧ e.1 = .success) ∧
      ∀ s ∈ ir.steps, s.when.isSome = true → ∀ d ∈ ir.steps, d.id = s.skipTarget →
        d.authored ≠ some .delete)
    ⟨fun h => ⟨h.1, fun s hs o t hon => h.2.1 s hs (o, t) hon, h.2.2⟩,
      fun h => ⟨h.start, fun s hs e he => h.entries s hs e.1 e.2 he, h.skips⟩⟩

/-- No run is at a deletion unless an approval that leads there was given just before. -/
def RunsGuarded (ir : SingleIr) : Prop :=
  ∀ invocation trail id, Visited ir invocation trail id →
    ∀ d ∈ ir.steps, d.id = id → d.authored = some .delete →
      ∃ s ∈ ir.steps, s.operation = .approval ∧ s.on.get? .success = some id ∧
        trail.head? = some (s.id, .took .success)

theorem isSome_when_of_skips {s : CompiledStep} {inputs invocation : Json.Object}
    (h : s.skips inputs invocation = some true) : s.when.isSome = true := by
  unfold CompiledStep.skips at h
  cases hwhen : s.when with
  | none =>
    rw [hwhen] at h
    cases h
  | some condition => rfl

theorem runsGuarded_of_guardsDeletes {ir : SingleIr} (hc : ClosedIr ir) (hg : GuardsDeletes ir) :
    RunsGuarded ir := by
  intro invocation trail id hrun d hd hid hdel
  cases hrun with
  | start hstart => exact absurd hdel (hg.start d hd (by rw [hid]; exact hstart))
  | @move s o _ trail hrun hs hskips hon =>
    obtain ⟨hop, rfl⟩ := hg.entries s hs o id hon d hd hid hdel
    exact ⟨s, hs, hop, Dict.mem_entries_iff.mp hon, rfl⟩
  | skip hrun hs hskips => exact absurd hdel (hg.skips _ hs (isSome_when_of_skips hskips) d hd hid)
  | lost hrun hs hskips => exact absurd (by rw [hid]; decide) (hc.proper d hd)

/-! ## Where an author lets a step lead -/

/-- Where a step leads that is compiled to an operation: where its author says, by a key or
in its description; to the next step; and what a condition does on success it does when it holds. -/
inductive Leads (host : CompileHost) (steps : List Json) (index : ℕ) (step : Json.Object)
    (op : Operation) : Outcome → Str → Prop
  | given {o : Outcome} {t : Str} : op ≠ .complete → ¬ (op = .condition ∧ o = .success) →
      (givenTransitions host step).get? o.name = some t → Leads host steps index step op o (strip t)
  | next : op ≠ .complete → op ≠ .condition →
      (givenTransitions host step).get? Outcome.success.name = none →
      Leads host steps index step op .success (strip (nextStep host steps index))
  | decided : op = .condition → (givenTransitions host step).get? Outcome.true.name = none →
      Leads host steps index step op .true
        (strip (((givenTransitions host step).get? Outcome.success.name).getD
          (nextStep host steps index)))

/-- No step but an approval, by its success, leads into a deletion, and the first step is none;
and no step that may be skipped leads there by its success, unless it says where it is skipped to. -/
structure StepsGuarded (host : CompileHost) (steps : List Json) : Prop where
  start : ∀ step, steps[0]? = some (.obj step) → operationOf host step ≠ some .delete
  entries : ∀ i step op o t, steps[i]? = some (.obj step) → compiledOperation host step = some op →
    Leads host steps i step op o t → ∀ d, .obj d ∈ steps → stepName host [] d = t →
    operationOf host d = some .delete → op = .approval ∧ o = .success
  skips : ∀ i step op t, steps[i]? = some (.obj step) → compiledOperation host step = some op →
    (whenOf step).isSome = true → (∀ t', ¬ Leads host steps i step op .skipped t') →
    Leads host steps i step op .success t → ∀ d, .obj d ∈ steps → stepName host [] d = t →
    operationOf host d ≠ some .delete

def enabledCapability : Json → Option Json.Object
  | .obj capability => if disabled capability then none else some capability
  | _ => none

/-- The capabilities that are compiled. -/
def enabledCapabilities (items : List Json) : List Json.Object := items.filterMap enabledCapability

/-- The steps of each pipeline of a source. -/
def sourceSteps (source : Json.Object) : List (List Json) :=
  match Json.lookup (str "capabilities") source with
  | none | some .null => [stepsOf source]
  | some capabilities => (enabledCapabilities (capabilitiesOf capabilities)).map stepsOf

def SourceGuards (host : CompileHost) (source : Json.Object) : Prop :=
  ∀ steps ∈ sourceSteps source, StepsGuarded host steps

/-! ## Outcomes and routes -/

theorem ofName?_eq_some {k : Str} {o : Outcome} : Outcome.ofName? k = some o ↔ k = o.name := by
  constructor
  · intro h
    have hk : o.name = k := by simpa using List.find?_some h
    exact hk.symm
  · rintro rfl
    cases o <;> decide

theorem outcome_name_inj {o o' : Outcome} : o.name = o'.name ↔ o = o' := by
  constructor
  · intro h
    exact Option.some.inj ((ofName?_eq_some.mpr rfl).symm.trans (ofName?_eq_some.mpr h))
  · rintro rfl
    rfl

section Step

variable {host : CompileHost} {steps : List Json} {names : List Str} {index : ℕ}
  {step : Json.Object} {s : CompiledStep}

@[simp] theorem get?_empty (k : Str) : (Dict.empty : Dict Str Str).get? k = none := rfl

theorem get?_name_setDefault (d : Dict Str Str) (o o' : Outcome) (t : Str) :
    (d.setDefault o'.name t).get? o.name =
      if o' = o then some ((d.get? o'.name).getD t) else d.get? o.name := by
  rw [Dict.get?_setDefault]
  by_cases h : o' = o
  · rw [if_pos h, if_pos (outcome_name_inj.mpr h)]
  · rw [if_neg h, if_neg fun hname => h (outcome_name_inj.mp hname)]

theorem get?_name_erase (d : Dict Str Str) (o o' : Outcome) :
    (d.erase o'.name).get? o.name = if o' = o then none else d.get? o.name := by
  rw [Dict.get?_erase]
  by_cases h : o' = o
  · rw [if_pos h, if_pos (outcome_name_inj.mpr h)]
  · rw [if_neg h, if_neg fun hname => h (outcome_name_inj.mp hname)]

theorem routes_complete (o : Outcome) : (routes host steps index step .complete).get? o.name =
    if .failed = o then some (str "failed") else none := by
  show (Dict.empty.setDefault Outcome.failed.name (str "failed")).get? o.name = _
  rw [get?_name_setDefault]
  rfl

theorem routes_condition (o : Outcome) :
    (routes host steps index step .condition).get? o.name =
      if .failed = o then
        some (((givenTransitions host step).get? Outcome.failed.name).getD (str "failed"))
      else if .false = o then
        some (((givenTransitions host step).get? Outcome.false.name).getD (str "failed"))
      else if .true = o then some (((givenTransitions host step).get? Outcome.true.name).getD
        (((givenTransitions host step).get? Outcome.success.name).getD (nextStep host steps index)))
      else if .success = o then none
      else (givenTransitions host step).get? o.name := by
  show ((((((givenTransitions host step).setDefault Outcome.success.name
    (nextStep host steps index)).erase Outcome.success.name).setDefault Outcome.true.name
      ((((givenTransitions host step).setDefault Outcome.success.name
        (nextStep host steps index)).get? Outcome.success.name).getD (str "done"))).setDefault
          Outcome.false.name (str "failed")).setDefault Outcome.failed.name (str "failed")).get?
            o.name = _
  simp only [get?_name_setDefault, get?_name_erase, reduceCtorEq, if_false, if_true, Option.getD_some]
  cases o <;> rfl

theorem routes_other {op : Operation} (hcomplete : op ≠ .complete) (hcondition : op ≠ .condition)
    (o : Outcome) :
    (routes host steps index step op).get? o.name =
      if .failed = o then
        some (((givenTransitions host step).get? Outcome.failed.name).getD (str "failed"))
      else if .success = o then
        some (((givenTransitions host step).get? Outcome.success.name).getD
          (nextStep host steps index))
      else (givenTransitions host step).get? o.name := by
  have hroutes : routes host steps index step op = ((givenTransitions host step).setDefault
      Outcome.success.name (nextStep host steps index)).setDefault Outcome.failed.name
        (str "failed") := by
    unfold routes
    rw [if_neg hcomplete]
    dsimp only
    rw [if_neg hcondition]
    rfl
  rw [hroutes]
  simp only [get?_name_setDefault, reduceCtorEq, if_false]

/-- Where a step is compiled to lead, its author lets it lead, or it fails. -/
theorem leads_of_routes {op : Operation} {o : Outcome} {t : Str}
    (h : (routes host steps index step op).get? o.name = some t) :
    Leads host steps index step op o (strip t) ∨ t = str "failed" := by
  by_cases hcomplete : op = .complete
  · subst hcomplete
    rw [routes_complete] at h
    split_ifs at h
    exact .inr (Option.some.inj h).symm
  -- a default is kept where nothing is given
  have hgiven : ∀ d, ¬ (op = .condition ∧ o = .success) →
      some (((givenTransitions host step).get? o.name).getD d) = some t →
      Leads host steps index step op o (strip t) ∨ t = d := by
    intro d hsuccess ht
    cases hget : (givenTransitions host step).get? o.name with
    | none =>
      rw [hget] at ht
      exact .inr (Option.some.inj ht).symm
    | some u =>
      rw [hget] at ht
      exact .inl (.given hcomplete hsuccess (hget.trans ht))
  by_cases hcondition : op = .condition
  · subst hcondition
    rw [routes_condition] at h
    split_ifs at h with hfailed hfalse htrue hsuccess
    · subst hfailed
      exact hgiven _ (by simp) h
    · subst hfalse
      exact hgiven _ (by simp) h
    · subst htrue
      rcases hgiven _ (by simp) h with hleads | rfl
      · exact .inl hleads
      · cases hget : (givenTransitions host step).get? Outcome.true.name with
        | none => exact .inl (.decided rfl hget)
        | some u =>
          rw [hget] at h
          exact .inl (.given hcomplete (by simp) (hget.trans h))
    · exact .inl (.given hcomplete (by simpa [eq_comm] using hsuccess) h)
  · rw [routes_other hcomplete hcondition] at h
    split_ifs at h with hfailed hsuccess
    · subst hfailed
      exact hgiven _ (by simp [hcondition]) h
    · subst hsuccess
      cases hget : (givenTransitions host step).get? Outcome.success.name with
      | none =>
        rw [hget] at h
        rw [← Option.some.inj h]
        exact .inl (.next hcomplete hcondition hget)
      | some u =>
        rw [hget] at h
        exact .inl (.given hcomplete (by simp [hcondition]) (hget.trans h))
    · exact .inl (.given hcomplete (by simp [hcondition]) h)

theorem routes_of_leads {op : Operation} {o : Outcome} {t : Str}
    (h : Leads host steps index step op o t) :
    ∃ t', (routes host steps index step op).get? o.name = some t' ∧ strip t' = t := by
  cases h with
  | @given _ u hcomplete hsuccess hget =>
    refine ⟨u, ?_, rfl⟩
    by_cases hcondition : op = .condition
    · subst hcondition
      have hne : ¬ Outcome.success = o := fun h => hsuccess ⟨rfl, h.symm⟩
      rw [routes_condition]
      split_ifs with hfailed hfalse htrue
      · rw [hfailed, hget, Option.getD_some]
      · rw [hfalse, hget, Option.getD_some]
      · rw [htrue, hget, Option.getD_some]
      · exact hget
    · rw [routes_other hcomplete hcondition]
      split_ifs with hfailed hsuccess
      · rw [hfailed, hget, Option.getD_some]
      · rw [hsuccess, hget, Option.getD_some]
      · exact hget
  | next hcomplete hcondition hget =>
    refine ⟨nextStep host steps index, ?_, rfl⟩
    rw [routes_other hcomplete hcondition, hget]
    rfl
  | decided hcondition hget =>
    subst hcondition
    refine ⟨_, ?_, rfl⟩
    rw [routes_condition, hget]
    rfl

/-- A step that is compiled to a way of skipping it was given it. -/
theorem leads_skipped {op : Operation} {t : Str}
    (h : (routes host steps index step op).get? Outcome.skipped.name = some t) :
    Leads host steps index step op .skipped (strip t) := by
  by_cases hcomplete : op = .complete
  · subst hcomplete
    rw [routes_complete] at h
    cases h
  · refine .given hcomplete (by simp) ?_
    by_cases hcondition : op = .condition
    · subst hcondition
      rw [routes_condition] at h
      exact h
    · rw [routes_other hcomplete hcondition] at h
      exact h

/-! ## One step -/

theorem strip_nil : strip [] = [] := by decide

/-- A name that is there is the same by any default. -/
theorem stepName_default (default : Str) (h : stepName host [] step ≠ []) :
    stepName host default step = stepName host [] step := by
  unfold stepName at h ⊢
  cases hname : Json.lookup (str "name") step with
  | none =>
    rw [hname] at h
    exact absurd strip_nil h
  | some value =>
    rw [hname] at h
    unfold textOr at h ⊢
    split at h
    · split_ifs at h ⊢ with hs
      · exact absurd strip_nil h
      · rfl
    · split_ifs at h ⊢ with hv
      · rfl
      · exact absurd strip_nil h
    · exact absurd strip_nil h

theorem compiledOperation_authored (h : ¬ interpreted step = true) :
    compiledOperation host step = operationOf host step := by
  unfold compiledOperation
  split
  case h_7 => rw [if_neg h]
  all_goals exact Eq.symm ‹_›

/-- What a step of a source is compiled to. -/
structure CompiledFrom (host : CompileHost) (steps : List Json) (names : List Str) (index : ℕ)
    (step : Json.Object) (s : CompiledStep) : Prop where
  id : s.id = stepName host [] step
  authored : s.authored = operationOf host step
  operation : compiledOperation host step = some s.operation
  effect : s.effect = compiledEffect step s.operation
  when : s.when = whenOf step
  on : ∀ o t, (o, t) ∈ s.on.entries ↔
    ∃ t', (routes host steps index step s.operation).get? o.name = some t' ∧ strip t' = t
  targets : ∀ o t, (o, t) ∈ s.on.entries → t ∈ names ∨ t ∈ terminals

theorem compileStep_ok (hname : stepName host [] step ≠ [])
    (h : (compileStep host steps names index step).1 = []) :
    ∃ s, (compileStep host steps names index step).2 = some s ∧
      CompiledFrom host steps names index step s := by
  unfold compileStep at h ⊢
  cases hop : compiledOperation host step with
  | none =>
    rw [hop] at h
    exact absurd h (List.cons_ne_nil _ _)
  | some op =>
    rw [hop] at h
    obtain ⟨herrors, -⟩ := List.append_eq_nil_iff.mp h
    have hmem : ∀ o t, (o, t) ∈ ((routes host steps index step op).rekey Outcome.ofName? strip
        ofName?_inj).entries ↔
        ∃ t', (routes host steps index step op).get? o.name = some t' ∧ strip t' = t := by
      intro o t
      rw [Dict.mem_rekey]
      constructor
      · rintro ⟨k, t', hkt, hk, ht⟩
        rw [ofName?_eq_some] at hk
        exact ⟨t', hk ▸ Dict.mem_entries_iff.mp hkt, ht⟩
      · rintro ⟨t', hget, ht⟩
        exact ⟨o.name, t', Dict.mem_entries_iff.mpr hget, ofName?_eq_some.mpr rfl, ht⟩
    refine ⟨_, rfl, stepName_default _ hname, ?_, hop, rfl, rfl, hmem, ?_⟩
    · unfold CompiledStep.authored
      dsimp only
      by_cases hinterpreted : interpreted step = true
      · rw [if_pos hinterpreted]
        rfl
      · rw [if_neg hinterpreted, Option.getD_none, ← hop, compiledOperation_authored hinterpreted]
    · intro o t hon
      obtain ⟨t', hget, rfl⟩ := (hmem o t).mp hon
      have herror := List.flatMap_eq_nil_iff.mp herrors (o.name, t') (Dict.mem_entries_iff.mpr hget)
      unfold routeErrors at herror
      dsimp only at herror
      split_ifs at herror with hk htarget
      · exact htarget

/-! ## Conditions -/

/-- A condition compares an input by its name with a boolean. -/
def ComparesInput (condition : Json.Object) : Prop :=
  ∃ name b, Json.lookup (str "input") condition = some (.str name) ∧
    boolOf (Json.lookup (str "equals") condition) = some b

theorem comparesInput_of_whenValid {properties : Json} {condition : Json.Object}
    (h : whenValid properties condition = some true) : ComparesInput condition := by
  unfold whenValid at h
  split at h
  · rename_i name hname
    split at h
    · cases h
    · have hboth := Option.some.inj h
      rw [Bool.and_eq_true] at hboth
      obtain ⟨b, hb⟩ := Option.isSome_iff_exists.mp hboth.2
      exact ⟨name, b, hname, hb⟩
    · cases h
  all_goals try cases h
  all_goals split at h <;> cases h

theorem comparesInput_of_whenErrors {source condition : Json.Object}
    (h : whenErrors source index step = some []) (hwhen : whenOf step = some condition) :
    ComparesInput condition := by
  obtain ⟨value, hvalue, hobj⟩ := Option.bind_eq_some_iff.mp hwhen
  cases value with
  | obj members =>
    obtain rfl : members = condition := Option.some.inj hobj
    unfold whenErrors at h
    rw [hvalue] at h
    dsimp only at h
    split at h
    · obtain ⟨properties, -, h⟩ := Option.bind_eq_some_iff.mp h
      obtain ⟨valid, hvalid, h⟩ := Option.bind_eq_some_iff.mp h
      cases valid with
      | true => exact comparesInput_of_whenValid hvalid
      | false => exact absurd (Option.some.inj h) (List.cons_ne_nil _ _)
    · exact absurd (Option.some.inj h) (List.cons_ne_nil _ _)
  | _ => cases hobj

theorem conditionErrors_ok {source : Json.Object} {objects : List Json.Object}
    (h : conditionErrors host source index (objects.map .obj) = some []) :
    ∀ i object, objects[i]? = some object → (compiledOperation host object).isSome = true →
      whenErrors source (index + i) object = some [] := by
  induction objects generalizing index with
  | nil => exact fun i object hi => by simp at hi
  | cons first rest ih =>
    rw [List.map_cons, conditionErrors] at h
    obtain ⟨own, hown, h⟩ := Option.bind_eq_some_iff.mp h
    obtain ⟨errors, herrors, h⟩ := Option.bind_eq_some_iff.mp h
    obtain ⟨rfl, rfl⟩ := List.append_eq_nil_iff.mp (Option.some.inj h)
    intro i object hi hop
    cases i with
    | zero =>
      obtain rfl : first = object := Option.some.inj hi
      unfold stepConditionErrors at hown
      rw [if_neg (by simp [Option.isSome_iff_ne_none.mp hop])] at hown
      exact hown
    | succ i =>
      have hrest := ih herrors i object hi hop
      rwa [Nat.add_right_comm] at hrest

/-! ## The names -/

/-- Steps whose names are in order are objects with distinct proper names. -/
theorem names_ok {steps : List Json} {seen : List Str} (h : nameErrors host seen index steps = []) :
    ∃ objects : List Json.Object, steps = objects.map .obj ∧
      (objects.map (stepName host [])).Nodup ∧
      ∀ object ∈ objects, stepName host [] object ≠ [] ∧ stepName host [] object ∉ terminals ∧
        stepName host [] object ∉ seen := by
  induction steps generalizing seen index with
  | nil => exact ⟨[], rfl, List.nodup_nil, nofun⟩
  | cons step rest ih =>
    cases step with
    | obj object =>
      obtain ⟨hname, hrest⟩ := List.append_eq_nil_iff.mp h
      split_ifs at hname with hempty hterminal hseen
      obtain ⟨objects, rfl, hnodup, hproper⟩ := ih hrest
      have hfresh : stepName host [] object ∉ objects.map (stepName host []) := by
        intro hmem
        obtain ⟨other, hother, heq⟩ := List.mem_map.mp hmem
        exact (hproper other hother).2.2 (by rw [heq]; simp)
      refine ⟨object :: objects, rfl, List.nodup_cons.mpr ⟨hfresh, hnodup⟩, ?_⟩
      intro other hother
      rcases List.mem_cons.mp hother with rfl | hother
      · exact ⟨hempty, hterminal, hseen⟩
      · obtain ⟨hne, hnt, hns⟩ := hproper other hother
        exact ⟨hne, hnt, fun hmem => hns (List.mem_append_left _ hmem)⟩
    | _ => exact absurd h (List.cons_ne_nil _ _)

theorem stepNames_objects (objects : List Json.Object) :
    stepNames host (objects.map .obj) = objects.map (stepName host []) := by
  induction objects with
  | nil => rfl
  | cons object objects ih => exact congrArg (stepName host [] object :: ·) ih

/-! ## The steps of a pipeline -/

/-- Every step has its place and its source. -/
theorem compileSteps_objects (objects : List Json.Object) :
    compileSteps host (objects.map .obj) names =
      objects.mapIdx fun i object => compileStep host (objects.map .obj) names i object := by
  refine List.ext_getElem? fun i => ?_
  unfold compileSteps
  rw [List.getElem?_mapIdx, List.getElem?_mapIdx, List.getElem?_map]
  cases objects[i]? <;> rfl

end Step

/-- What is read off the results in order is what is read off their sources in order. -/
theorem map_filterMap_mapIdx {α β γ δ : Type} (f : ℕ → α → δ × Option β) (g : β → γ) (k : α → γ)
    (l : List α) (h : ∀ i a, l[i]? = some a → ∃ b, (f i a).2 = some b ∧ g b = k a) :
    ((l.mapIdx f).filterMap Prod.snd).map g = l.map k := by
  induction l generalizing f with
  | nil => rfl
  | cons a l ih =>
    obtain ⟨b, hb, hg⟩ := h 0 a rfl
    rw [List.mapIdx_cons, List.filterMap_cons_some hb, List.map_cons, List.map_cons, hg,
      ih (fun i => f (i + 1)) fun i a' ha' => h (i + 1) a' ha']

/-- What compiling a pipeline without errors means for its steps. -/
structure StepsCompiled (host : CompileHost) (objects : List Json.Object) (ir : SingleIr) : Prop where
  nodup : (objects.map (stepName host [])).Nodup
  proper : ∀ object ∈ objects, stepName host [] object ∉ terminals
  named : ∀ object ∈ objects, stepName host [] object ≠ []
  nonempty : objects ≠ []
  ids : ir.steps.map CompiledStep.id = objects.map (stepName host [])
  start : ir.start = ir.steps.head?.map CompiledStep.id
  effects : ir.effects = effectsOf ir.steps
  conditions : ∀ s ∈ ir.steps, ∀ condition, s.when = some condition → ComparesInput condition
  compiled : ∀ i object, objects[i]? = some object → ∃ s ∈ ir.steps,
    CompiledFrom host (objects.map .obj) (objects.map (stepName host [])) i object s
  source : ∀ s ∈ ir.steps, ∃ i object, objects[i]? = some object ∧
    CompiledFrom host (objects.map .obj) (objects.map (stepName host [])) i object s

theorem compileSingle_ok {host : CompileHost} {source : Json.Object} {ir : SingleIr}
    (h : compileSingle host source = some (ir, [])) :
    ∃ objects, stepsOf source = objects.map .obj ∧ StepsCompiled host objects ir := by
  unfold compileSingle at h
  obtain ⟨other, -, h⟩ := Option.bind_eq_some_iff.mp h
  obtain ⟨scopes, -, h⟩ := Option.bind_eq_some_iff.mp h
  obtain ⟨conditions, hconditions, h⟩ := Option.bind_eq_some_iff.mp h
  obtain ⟨digest, -, h⟩ := Option.bind_eq_some_iff.mp h
  obtain ⟨hir, herrors⟩ := Prod.mk.inj (Option.some.inj h)
  simp only [List.append_eq_nil_iff] at herrors
  obtain ⟨⟨⟨⟨⟨⟨⟨⟨-, hrequired⟩, hnames⟩, hresults⟩, rfl⟩, -⟩, -⟩, -⟩, -⟩ := herrors
  obtain ⟨objects, hobjects, hnodup, hproper⟩ := names_ok hnames
  have hnonempty : stepsOf source ≠ [] := by
    intro hnil
    rw [if_pos hnil] at hrequired
    exact List.cons_ne_nil _ _ hrequired
  rw [hobjects, stepNames_objects, compileSteps_objects] at hresults
  rw [hobjects] at hconditions
  have hone : ∀ i object, objects[i]? = some object →
      (compileStep host (objects.map .obj) (objects.map (stepName host [])) i object).1 = [] :=
    fun i object hi => List.flatMap_eq_nil_iff.mp hresults _
      (List.mem_mapIdx.mpr ⟨i, (List.getElem?_eq_some_iff.mp hi).1, by
        rw [(List.getElem?_eq_some_iff.mp hi).2]⟩)
  have hsteps : ir.steps = (objects.mapIdx fun i object => compileStep host (objects.map .obj)
      (objects.map (stepName host [])) i object).filterMap Prod.snd := by
    rw [← hir, hobjects, stepNames_objects, compileSteps_objects]
  have hcompiled : ∀ i object, objects[i]? = some object → ∃ s, (compileStep host
      (objects.map .obj) (objects.map (stepName host [])) i object).2 = some s ∧
        CompiledFrom host (objects.map .obj) (objects.map (stepName host [])) i object s :=
    fun i object hi => compileStep_ok (hproper object (List.mem_of_getElem? hi)).1 (hone i object hi)
  have hsource : ∀ s ∈ ir.steps, ∃ i object, objects[i]? = some object ∧
      CompiledFrom host (objects.map .obj) (objects.map (stepName host [])) i object s := by
    intro s hs
    rw [hsteps] at hs
    obtain ⟨result, hresult, hsome⟩ := List.mem_filterMap.mp hs
    obtain ⟨i, hi, rfl⟩ := List.mem_mapIdx.mp hresult
    obtain ⟨s', hs', hfrom⟩ := hcompiled i _ (List.getElem?_eq_getElem hi)
    rw [hs'] at hsome
    rw [← Option.some.inj hsome]
    exact ⟨i, _, List.getElem?_eq_getElem hi, hfrom⟩
  refine ⟨objects, hobjects, hnodup, fun object ho => (hproper object ho).2.1,
    fun object ho => (hproper object ho).1, ?_, ?_, ?_, ?_, ?_, ?_, ?_⟩
  · rintro rfl
    exact hnonempty hobjects
  · rw [hsteps]
    refine map_filterMap_mapIdx _ _ _ _ fun i object hi => ?_
    obtain ⟨s, hs, hfrom⟩ := hcompiled i object hi
    exact ⟨s, hs, hfrom.id⟩
  · rw [← hir]
  · rw [← hir]
  · intro s hs condition hwhen
    obtain ⟨i, object, hi, hfrom⟩ := hsource s hs
    exact comparesInput_of_whenErrors (conditionErrors_ok hconditions i object hi
      (by rw [hfrom.operation]; rfl)) (hfrom.when.symm.trans hwhen)
  · intro i object hi
    obtain ⟨s, hs, hfrom⟩ := hcompiled i object hi
    refine ⟨s, ?_, hfrom⟩
    rw [hsteps]
    refine List.mem_filterMap.mpr ⟨_, List.mem_mapIdx.mpr ⟨i, (List.getElem?_eq_some_iff.mp hi).1, rfl⟩, ?_⟩
    rw [(List.getElem?_eq_some_iff.mp hi).2, hs]
  · exact hsource

/-! ## One pipeline -/

section Pipeline

variable {host : CompileHost} {objects : List Json.Object} {ir : SingleIr}

/-- A step is skipped to the target of a transition, or fails. -/
theorem skipTarget_cases (s : CompiledStep) :
    (∃ o, (o, s.skipTarget) ∈ s.on.entries) ∨ s.skipTarget = str "failed" := by
  unfold CompiledStep.skipTarget
  cases hskipped : (s.on.get? .skipped).filter fun t => t ≠ [] with
  | some t => exact .inl ⟨.skipped, Dict.mem_entries_iff.mpr (Option.filter_eq_some_iff.mp hskipped).1⟩
  | none =>
    cases hsuccess : (s.on.get? .success).filter fun t => t ≠ [] with
    | some t => exact .inl ⟨.success, Dict.mem_entries_iff.mpr (Option.filter_eq_some_iff.mp hsuccess).1⟩
    | none => exact .inr rfl

theorem compileSingle_closed (h : StepsCompiled host objects ir) : ClosedIr ir where
  nodup := by
    rw [h.ids]
    exact h.nodup
  proper := by
    intro s hs
    obtain ⟨i, object, hi, hfrom⟩ := h.source s hs
    rw [hfrom.id]
    exact h.proper object (List.mem_of_getElem? hi)
  start := by
    have hne : ir.steps ≠ [] := by
      intro hnil
      have hids := h.ids
      rw [hnil, List.map_nil, eq_comm, List.map_eq_nil_iff] at hids
      exact h.nonempty hids
    obtain ⟨s, rest, hsteps⟩ := List.exists_cons_of_ne_nil hne
    rw [h.start, hsteps]
    exact ⟨s, List.mem_cons_self, rfl⟩
  targets := by
    intro s hs o t hon
    obtain ⟨i, object, -, hfrom⟩ := h.source s hs
    rw [h.ids]
    exact hfrom.targets o t hon
  skips := by
    intro s hs
    obtain ⟨i, object, -, hfrom⟩ := h.source s hs
    rw [h.ids]
    rcases skipTarget_cases s with ⟨o, hon⟩ | hfailed
    · exact hfrom.targets o _ hon
    · exact .inr (by rw [hfailed]; decide)
  conditions := by
    intro s hs invocation
    unfold CompiledStep.skips
    cases hwhen : s.when with
    | none => rfl
    | some condition =>
      obtain ⟨name, b, hname, hb⟩ := h.conditions s hs condition hwhen
      simp only [hname, hb, Option.isSome_some]

/-- The first step of a pipeline is compiled from the first of its source. -/
theorem start_eq (h : StepsCompiled host objects ir) :
    ir.start = objects.head?.map (stepName host []) := by
  rw [h.start, ← List.head?_map, h.ids, List.head?_map]

/-- The step at a place of the source is compiled. -/
theorem StepsCompiled.compiledAt (h : StepsCompiled host objects ir) {i : ℕ} {step : Json.Object}
    (hi : (objects.map Json.obj)[i]? = some (.obj step)) : ∃ s ∈ ir.steps,
      CompiledFrom host (objects.map .obj) (objects.map (stepName host [])) i step s := by
  rw [List.getElem?_map, Option.map_eq_some_iff] at hi
  obtain ⟨object, hobject, heq⟩ := hi
  cases heq
  exact h.compiled i step hobject

theorem StepsCompiled.compiledMem (h : StepsCompiled host objects ir) {step : Json.Object}
    (hstep : Json.obj step ∈ objects.map .obj) : stepName host [] step ≠ [] ∧ ∃ s ∈ ir.steps,
      s.id = stepName host [] step ∧ s.authored = operationOf host step := by
  obtain ⟨object, hobject, heq⟩ := List.mem_map.mp hstep
  cases heq
  obtain ⟨j, hj⟩ := List.mem_iff_getElem?.mp hobject
  obtain ⟨s, hs, hfrom⟩ := h.compiled j step hj
  exact ⟨h.named step hobject, s, hs, hfrom.id, hfrom.authored⟩

/-- A compiled step has its place in the source. -/
theorem StepsCompiled.placeOf (h : StepsCompiled host objects ir) {s : CompiledStep}
    (hs : s ∈ ir.steps) : ∃ i step, (objects.map Json.obj)[i]? = some (.obj step) ∧
      Json.obj step ∈ objects.map .obj ∧ stepName host [] step ∉ terminals ∧
      CompiledFrom host (objects.map .obj) (objects.map (stepName host [])) i step s := by
  obtain ⟨i, step, hi, hfrom⟩ := h.source s hs
  have hmem := List.mem_of_getElem? hi
  refine ⟨i, step, ?_, List.mem_map_of_mem hmem, h.proper step hmem, hfrom⟩
  rw [List.getElem?_map, hi]
  rfl

theorem StepsCompiled.id_ne_failed (h : StepsCompiled host objects ir) {s : CompiledStep}
    (hs : s ∈ ir.steps) : s.id ≠ str "failed" := by
  obtain ⟨i, step, -, -, hproper, hfrom⟩ := h.placeOf hs
  intro hfailed
  rw [← hfrom.id, hfailed] at hproper
  exact hproper (by decide)

/-- Where a step leads that says nothing of being skipped, it is skipped to. -/
theorem skipTarget_of_leads {s : CompiledStep} {i : ℕ} {step : Json.Object} {steps : List Json}
    {names : List Str} (hfrom : CompiledFrom host steps names i step s) {t : Str} (ht : t ≠ [])
    (hskipped : ∀ t', ¬ Leads host steps i step s.operation .skipped t')
    (hleads : Leads host steps i step s.operation .success t) : s.skipTarget = t := by
  have hnone : s.on.get? .skipped = none := by
    cases hget : s.on.get? .skipped with
    | none => rfl
    | some t' =>
      obtain ⟨u, hu, rfl⟩ := (hfrom.on .skipped t').mp (Dict.mem_entries_iff.mpr hget)
      exact absurd (leads_skipped hu) (hskipped _)
  have hsuccess : s.on.get? .success = some t :=
    Dict.mem_entries_iff.mp ((hfrom.on .success t).mpr (routes_of_leads hleads))
  unfold CompiledStep.skipTarget
  rw [hnone, hsuccess, Option.filter_some]
  simp [ht]

theorem stepsGuarded_of_guardsDeletes (h : StepsCompiled host objects ir) (hg : GuardsDeletes ir) :
    StepsGuarded host (objects.map .obj) where
  start step hstep hdel := by
    obtain ⟨s, hs, hfrom⟩ := h.compiledAt hstep
    refine hg.start s hs ?_ (hfrom.authored.trans hdel)
    rw [List.getElem?_map, Option.map_eq_some_iff] at hstep
    obtain ⟨object, hobject, heq⟩ := hstep
    cases heq
    rw [start_eq h, List.head?_eq_getElem?, hobject, hfrom.id]
    rfl
  entries i step op o t hi hop hleads d hd hname hdel := by
    obtain ⟨s, hs, hfrom⟩ := h.compiledAt hi
    obtain rfl : s.operation = op := Option.some.inj (hfrom.operation.symm.trans hop)
    obtain ⟨-, sd, hsd, hid, hauthored⟩ := h.compiledMem hd
    exact hg.entries s hs o t ((hfrom.on o t).mpr (routes_of_leads hleads)) sd hsd
      (hid.trans hname) (hauthored.trans hdel)
  skips i step op t hi hop hwhen hskipped hleads d hd hname hdel := by
    obtain ⟨s, hs, hfrom⟩ := h.compiledAt hi
    obtain rfl : s.operation = op := Option.some.inj (hfrom.operation.symm.trans hop)
    obtain ⟨hnamed, sd, hsd, hid, hauthored⟩ := h.compiledMem hd
    have htarget := skipTarget_of_leads hfrom (hname ▸ hnamed) hskipped hleads
    exact hg.skips s hs (by rw [hfrom.when, hwhen]) sd hsd (by rw [hid, hname, htarget])
      (hauthored.trans hdel)

/-- An entry of a compiled step, as its author lets it lead; none but `failed` is added. -/
theorem StepsCompiled.leadsOf (h : StepsCompiled host objects ir) {s d : CompiledStep} {i : ℕ}
    {step : Json.Object} {steps : List Json} {names : List Str} {o : Outcome}
    (hfrom : CompiledFrom host steps names i step s)
    (hd : d ∈ ir.steps) (hon : (o, d.id) ∈ s.on.entries) :
    Leads host steps i step s.operation o d.id := by
  obtain ⟨t', hget, ht⟩ := (hfrom.on o d.id).mp hon
  rcases leads_of_routes hget with hleads | rfl
  · exact ht ▸ hleads
  · exact absurd (ht.symm.trans (by decide)) (h.id_ne_failed hd)

theorem guardsDeletes_of_stepsGuarded (h : StepsCompiled host objects ir)
    (hg : StepsGuarded host (objects.map .obj)) : GuardsDeletes ir := by
  have hentries : ∀ s ∈ ir.steps, ∀ o t, (o, t) ∈ s.on.entries → ∀ d ∈ ir.steps, d.id = t →
      d.authored = some .delete → s.operation = .approval ∧ o = .success := by
    rintro s hs o _ hon d hd rfl hdel
    obtain ⟨i, step, hi, -, -, hfrom⟩ := h.placeOf hs
    obtain ⟨j, dstep, -, hdmem, -, hdfrom⟩ := h.placeOf hd
    exact hg.entries i step s.operation o d.id hi hfrom.operation (h.leadsOf hfrom hd hon) dstep
      hdmem hdfrom.id.symm (hdfrom.authored.symm.trans hdel)
  refine ⟨fun d hd hstart hdel => ?_, hentries, fun s hs hwhen d hd htarget hdel => ?_⟩
  · obtain ⟨j, object, hj, hfrom⟩ := h.source d hd
    rw [start_eq h, Option.map_eq_some_iff] at hstart
    obtain ⟨first, hfirst, heq⟩ := hstart
    have hsame : first = object := List.inj_on_of_nodup_map h.nodup
      (List.mem_of_head? hfirst) (List.mem_of_getElem? hj) (heq.trans hfrom.id)
    refine hg.start object ?_ (hfrom.authored.symm.trans hdel)
    rw [List.getElem?_map, ← List.head?_eq_getElem?, hfirst, hsame]
    rfl
  · obtain ⟨i, step, hi, -, -, hfrom⟩ := h.placeOf hs
    obtain ⟨j, dstep, -, hdmem, -, hdfrom⟩ := h.placeOf hd
    -- a transition that is taken when the step is skipped is no approval's success
    have hnone : ∀ t, s.on.get? .skipped = some t → t ≠ d.id := by
      rintro t hget rfl
      exact nomatch (hentries s hs .skipped d.id (Dict.mem_entries_iff.mpr hget) d hd rfl hdel).2
    cases hskipped : s.on.get? .skipped with
    | some t =>
      obtain ⟨u, hu, ht⟩ := (hfrom.on .skipped t).mp (Dict.mem_entries_iff.mpr hskipped)
      have htarget' : t ≠ [] := by
        rintro rfl
        rcases hfrom.targets .skipped [] (Dict.mem_entries_iff.mpr hskipped) with hname | hterminal
        · obtain ⟨object, hobject, hempty⟩ := List.mem_map.mp hname
          exact h.named object hobject hempty
        · exact absurd hterminal (by decide)
      have hskip : s.skipTarget = t := by
        unfold CompiledStep.skipTarget
        rw [hskipped, Option.filter_some]
        simp [htarget']
      exact hnone t hskipped (hskip.symm.trans htarget.symm)
    | none =>
      have hno : ∀ t', ¬ Leads host (objects.map .obj) i step s.operation .skipped t' := by
        intro t' hleads
        have hon := (hfrom.on .skipped t').mpr (routes_of_leads hleads)
        rw [Dict.mem_entries_iff, hskipped] at hon
        cases hon
      have hon : (.success, d.id) ∈ s.on.entries := by
        rcases skipTarget_cases s with ⟨o, hon⟩ | hfailed
        · unfold CompiledStep.skipTarget at htarget
          rw [hskipped, Option.filter_none, Option.none_or] at htarget
          cases hsuccess : (s.on.get? .success).filter fun t => t ≠ [] with
          | some t =>
            rw [hsuccess] at htarget
            rw [htarget]
            exact Dict.mem_entries_iff.mpr (Option.filter_eq_some_iff.mp hsuccess).1
          | none =>
            rw [hsuccess] at htarget
            exact absurd htarget (h.id_ne_failed hd)
        · exact absurd (htarget.trans hfailed) (h.id_ne_failed hd)
      exact hg.skips i step s.operation d.id hi hfrom.operation (by rw [← hfrom.when, hwhen]) hno
        (h.leadsOf hfrom hd hon) dstep hdmem hdfrom.id.symm (hdfrom.authored.symm.trans hdel)

/-- **A pipeline guards its deletions exactly where its author does.** -/
theorem guardsDeletes_iff (h : StepsCompiled host objects ir) :
    GuardsDeletes ir ↔ StepsGuarded host (objects.map .obj) :=
  ⟨stepsGuarded_of_guardsDeletes h, guardsDeletes_of_stepsGuarded h⟩

end Pipeline

/-! ## A whole source -/

theorem forall_iff_of_forall₂ {α β : Type} {R : α → β → Prop} {P : α → Prop} {Q : β → Prop}
    {l : List α} {l' : List β} (h : List.Forall₂ R l l') (hR : ∀ a b, R a b → (P a ↔ Q b)) :
    (∀ a ∈ l, P a) ↔ ∀ b ∈ l', Q b := by
  induction h with
  | nil => exact ⟨fun _ => nofun, fun _ => nofun⟩
  | cons hab _ ih => rw [List.forall_mem_cons, List.forall_mem_cons, hR _ _ hab, ih]

theorem exists_left_of_forall₂ {α β : Type} {R : α → β → Prop} {l : List α} {l' : List β}
    (h : List.Forall₂ R l l') : ∀ b ∈ l', ∃ a ∈ l, R a b := by
  induction h with
  | nil => exact fun _ hb => nomatch hb
  | @cons a b _ _ hab _ ih =>
    intro b' hb'
    rcases List.mem_cons.mp hb' with rfl | hb'
    · exact ⟨a, List.mem_cons_self, hab⟩
    · obtain ⟨a', ha', hab'⟩ := ih b' hb'
      exact ⟨a', List.mem_cons_of_mem a ha', hab'⟩

section Source

variable {host : CompileHost} {source : Json.Object}

/-- The pipeline of a capability, compiled without errors. -/
def CapabilityCompiled (host : CompileHost) (source capability : Json.Object) (p : Pipeline) : Prop :=
  p.capabilityId = some (capabilityIdOf host capability) ∧ ∃ exportName,
    compileSingle host (subsource host source capability (capabilityIdOf host capability)
      exportName) = some (p.ir, [])

theorem stepsOf_subsource (capability : Json.Object) (id exportName : Str) :
    stepsOf (subsource host source capability id exportName) = stepsOf capability := by
  have hlookup : Json.lookup (str "steps") (subsource host source capability id exportName) =
      some ((Json.lookup (str "steps") capability).getD (.arr [])) := rfl
  rw [stepsOf, hlookup, stepsOf]
  cases Json.lookup (str "steps") capability <;> rfl

/-- Capabilities without errors are compiled one by one, under distinct ids. -/
theorem compileCapabilities_ok {items : List Json} {index : ℕ} {ids exports : List Str}
    {pipelines : List Pipeline}
    (h : compileCapabilities host source index ids exports items = some ([], pipelines)) :
    List.Forall₂ (CapabilityCompiled host source) (enabledCapabilities items) pipelines ∧
      ((enabledCapabilities items).map (capabilityIdOf host)).Nodup ∧
      ∀ c ∈ enabledCapabilities items, capabilityIdOf host c ∉ ids := by
  induction items generalizing index ids exports pipelines with
  | nil =>
    cases h
    exact ⟨.nil, List.nodup_nil, nofun⟩
  | cons item rest ih =>
    -- an error that is reported is not taken back
    have hreported : ∀ (e : CompileError) (r : Option (List CompileError × List Pipeline)),
        ¬ (r.map fun r => (e :: r.1, r.2)) = some ([], pipelines) := by
      intro e r hr
      obtain ⟨_, -, heq⟩ := Option.map_eq_some_iff.mp hr
      exact List.cons_ne_nil _ _ (Prod.mk.inj heq).1
    cases item with
    | obj capability =>
      unfold compileCapabilities at h
      dsimp only at h
      by_cases hdisabled : disabled capability = true
      · rw [if_pos hdisabled] at h
        have henabled : enabledCapabilities (.obj capability :: rest) = enabledCapabilities rest :=
          List.filterMap_cons_none (if_pos hdisabled)
        rw [henabled]
        exact ih h
      · rw [if_neg hdisabled] at h
        have henabled : enabledCapabilities (.obj capability :: rest) =
            capability :: enabledCapabilities rest :=
          List.filterMap_cons_some (if_neg hdisabled)
        split_ifs at h with hvalid hid hexport
        · exact absurd h (hreported _ _)
        · exact absurd h (hreported _ _)
        · exact absurd h (hreported _ _)
        obtain ⟨compiled, hcompiled, h⟩ := Option.bind_eq_some_iff.mp h
        obtain ⟨r, hr, h⟩ := Option.bind_eq_some_iff.mp h
        obtain ⟨herrors, rfl⟩ := Prod.mk.inj (Option.some.inj h)
        obtain ⟨hown, hrest⟩ := List.append_eq_nil_iff.mp herrors
        rw [List.map_eq_nil_iff] at hown
        obtain ⟨hall, hnodup, hfresh⟩ := ih (hr.trans (congrArg some (Prod.ext hrest rfl)))
        rw [henabled]
        refine ⟨.cons ⟨rfl, _, hcompiled.trans (congrArg some (Prod.ext rfl hown))⟩ hall,
          List.nodup_cons.mpr ⟨fun hmem => ?_, hnodup⟩, fun c hc => ?_⟩
        · obtain ⟨c, hc, heq⟩ := List.mem_map.mp hmem
          exact hfresh c hc (by rw [heq]; exact List.mem_cons_self)
        · rcases List.mem_cons.mp hc with rfl | hc
          · exact hid
          · exact fun hmem => hfresh c hc (List.mem_cons_of_mem _ hmem)
    | _ => exact absurd h (hreported _ _)

theorem compileSite_ok {capabilities : Json} {result : CompileResult}
    (h : compileSite host source capabilities = some result) (hv : result.valid = true) :
    List.Forall₂ (CapabilityCompiled host source) (enabledCapabilities (capabilitiesOf capabilities))
        result.pipelines ∧
      ((enabledCapabilities (capabilitiesOf capabilities)).map (capabilityIdOf host)).Nodup ∧
      listOf (Json.lookup (str "site_scope") source) = some result.siteScope := by
  have herrors : result.errors = [] := List.isEmpty_iff.mp hv
  unfold compileSite at h
  obtain ⟨digest, -, h⟩ := Option.bind_eq_some_iff.mp h
  obtain ⟨⟨errors, pipelines⟩, hcapabilities, h⟩ := Option.bind_eq_some_iff.mp h
  obtain ⟨siteScope, hscope, h⟩ := Option.bind_eq_some_iff.mp h
  have hresult := Option.some.inj h
  have hnil : errors = [] := by
    rw [← hresult] at herrors
    dsimp only at herrors
    by_cases hnone : pipelines = [] ∧ (if capabilitiesOf capabilities = [] then
        [(⟨str "capabilities", str "capabilities_required"⟩ : CompileError)] else []) ++ errors = []
    · exact (List.append_eq_nil_iff.mp hnone.2).2
    · rw [if_neg hnone] at herrors
      exact (List.append_eq_nil_iff.mp herrors).2
  subst hnil
  obtain ⟨hall, hnodup, -⟩ := compileCapabilities_ok hcapabilities
  rw [← hresult]
  exact ⟨hall, hnodup, hscope⟩

/-- The pipelines of a source that compiles without errors, step list by step list. -/
theorem compileSource_ok {result : CompileResult} (h : compileSource host source = some result)
    (hv : result.valid = true) :
    List.Forall₂ (fun steps p => ∃ objects, steps = objects.map .obj ∧
      StepsCompiled host objects p.ir) (sourceSteps source) result.pipelines := by
  have hsingle : (compileSingle host source).map (fun compiled =>
      ({ siteScope := compiled.1.siteScope
         pipelines := [⟨none, compiled.1⟩]
         sourceDigest := compiled.1.sourceDigest
         errors := compiled.2 } : CompileResult)) = some result →
      List.Forall₂ (fun steps p => ∃ objects, steps = objects.map .obj ∧
        StepsCompiled host objects p.ir) [stepsOf source] result.pipelines := by
    intro h
    obtain ⟨compiled, hcompiled, rfl⟩ := Option.map_eq_some_iff.mp h
    have herrors : compiled.2 = [] := List.isEmpty_iff.mp hv
    exact .cons (compileSingle_ok (hcompiled.trans (congrArg some (Prod.ext rfl herrors)))) .nil
  have hsite : ∀ capabilities, compileSite host source capabilities = some result →
      List.Forall₂ (fun steps p => ∃ objects, steps = objects.map .obj ∧
        StepsCompiled host objects p.ir)
        ((enabledCapabilities (capabilitiesOf capabilities)).map stepsOf) result.pipelines := by
    intro capabilities h
    rw [List.forall₂_map_left_iff]
    refine (compileSite_ok h hv).1.imp ?_
    rintro capability p ⟨-, exportName, hcompiled⟩
    rw [← stepsOf_subsource capability (capabilityIdOf host capability) exportName]
    exact compileSingle_ok hcompiled
  unfold compileSource at h
  unfold sourceSteps
  cases hcapabilities : Json.lookup (str "capabilities") source with
  | none =>
    rw [hcapabilities] at h
    exact hsingle h
  | some capabilities =>
    rw [hcapabilities] at h
    cases capabilities with
    | null => exact hsingle h
    | _ => exact hsite _ h

theorem pipelines_closed {result : CompileResult} (h : compileSource host source = some result)
    (hv : result.valid = true) : ∀ p ∈ result.pipelines, ClosedIr p.ir := by
  have hclosed := (forall_iff_of_forall₂ (P := fun _ => True) (Q := fun p => ClosedIr p.ir)
    (compileSource_ok h hv) ?_).mp fun _ _ => trivial
  · exact hclosed
  · rintro _ p ⟨objects, -, hcompiled⟩
    exact ⟨fun _ => compileSingle_closed hcompiled, fun _ => trivial⟩

/-- **A source's deletions are guarded exactly where its author guards them.** -/
theorem pipelines_guarded_iff {result : CompileResult} (h : compileSource host source = some result)
    (hv : result.valid = true) :
    (∀ p ∈ result.pipelines, GuardsDeletes p.ir ∧ RunsGuarded p.ir) ↔ SourceGuards host source := by
  refine (forall_iff_of_forall₂ (compileSource_ok h hv) ?_).symm
  rintro _ p ⟨objects, rfl, hcompiled⟩
  rw [← guardsDeletes_iff hcompiled]
  exact ⟨fun hg => ⟨hg, runsGuarded_of_guardsDeletes (compileSingle_closed hcompiled) hg⟩, And.left⟩

end Source

/-- **Compiled agents are closed, and their deletions guarded exactly where the author
guards them.** -/
theorem compiled_agents_guarded (host : CompileHost) (source : Json.Object) (result : CompileResult)
    (h : compileSource host source = some result) (hv : result.valid = true) :
    (∀ p ∈ result.pipelines, ClosedIr p.ir) ∧
      ((∀ p ∈ result.pipelines, GuardsDeletes p.ir ∧ RunsGuarded p.ir) ↔
        SourceGuards host source) :=
  ⟨pipelines_closed h hv, pipelines_guarded_iff h hv⟩

/-! ## Sample agents -/

/-- A language without surprises: what the samples do not use is left out. -/
def demoHost : CompileHost where
  repr _ := []
  digest _ := some (str "sha256:sample")
  lower := lower
  isDecimal c := 48 ≤ c && c ≤ 57
  siteUrl url := some ((str "https://").isPrefixOf url)
  otherErrors _ := some []

def demoStep (name operation : Str) : Json.Object :=
  [(str "name", .str name), (str "operation", .str operation)]

/-- A deletion that is approved first, step by step. -/
def carefulSteps : List Json := [
  .obj (demoStep (str "look") (str "inspect")),
  .obj (demoStep (str "ask") (str "approval")),
  .obj (demoStep (str "erase") (str "delete"))]

/-- The approval comes after the deletion that an inspection leads to. -/
def hastySteps : List Json := [
  .obj (demoStep (str "look") (str "inspect")),
  .obj (demoStep (str "erase") (str "delete") ++
    [(str "on", .obj [(str "success", .str (str "done"))])]),
  .obj (demoStep (str "ask") (str "approval") ++
    [(str "on", .obj [(str "success", .str (str "erase"))])])]

/-- An interpreted deletion, after an inspection. -/
def interpretedSteps : List Json := [
  .obj (demoStep (str "look") (str "inspect")),
  .obj (demoStep (str "erase") (str "delete") ++ [(str "execution", .str (str "interpreted"))])]

/-- An approval that is skipped unless the invocation asks for it. -/
def skippableSteps : List Json := [
  .obj (demoStep (str "look") (str "inspect")),
  .obj (demoStep (str "ask") (str "approval") ++
    [(str "when", .obj [(str "input", .str (str "careful")), (str "equals", .bool true)])]),
  .obj (demoStep (str "erase") (str "delete"))]

/-- One boolean input. -/
def demoInputs : Json := .obj [(str "type", .str (str "object")),
  (str "properties", .obj [(str "careful", .obj [(str "type", .str (str "boolean"))])])]

def demoSource (steps : List Json) : Json.Object :=
  [(str "site_scope", .arr [.str (str "https://shop.example/**")]),
    (str "capabilities", .arr [.obj [(str "id", .str (str "clean")), (str "inputs", demoInputs),
      (str "steps", .arr steps)]])]

theorem compiles_of_any (source : Json.Object)
    (h : (compileSource demoHost source).any CompileResult.valid = true) :
    ∃ result, compileSource demoHost source = some result ∧ result.valid = true :=
  (Option.any_eq_true _ _).mp h

/-- An invocation leaves the first step for an approval that it skips, on to a deletion. -/
def SkipsApproval (ir : SingleIr) (invocation : Json.Object) : Prop :=
  ∃ s ∈ ir.steps, ir.start = some s.id ∧ s.skips ir.inputs invocation = some false ∧
    ∃ e ∈ s.on.entries, ∃ a ∈ ir.steps, a.id = e.2 ∧ a.operation = .approval ∧
      a.skips ir.inputs invocation = some true ∧ ∃ d ∈ ir.steps, d.id = a.skipTarget ∧
        d.authored = some .delete

instance skipsApprovalDecidable (ir : SingleIr) (invocation : Json.Object) :
    Decidable (SkipsApproval ir invocation) := by
  unfold SkipsApproval
  infer_instance

theorem not_runsGuarded_of_skips {ir : SingleIr} {invocation : Json.Object}
    (h : SkipsApproval ir invocation) : ¬ RunsGuarded ir := by
  obtain ⟨s, hs, hstart, hskips, ⟨o, t⟩, hon, a, ha, hid, -, hskip, d, hd, htarget, hdel⟩ := h
  have hask : Visited ir invocation [(s.id, .took o)] a.id :=
    hid ▸ .move (.start hstart) hs hskips hon
  intro hguarded
  obtain ⟨s', -, -, -, hhead⟩ :=
    hguarded invocation _ a.skipTarget (.skip hask ha hskip) d hd htarget hdel
  exact nomatch (Prod.mk.inj (Option.some.inj hhead)).2

/-- **Two agents compile without errors that reach a deletion from an inspection**, and one
that reaches it past an approval that is skipped. -/
theorem unapproved_deletion_compiles :
    (∃ result, compileSource demoHost (demoSource hastySteps) = some result ∧
      result.valid = true ∧ ¬ ∀ p ∈ result.pipelines, GuardsDeletes p.ir ∧ RunsGuarded p.ir) ∧
    (∃ result, compileSource demoHost (demoSource interpretedSteps) = some result ∧
      result.valid = true ∧ ¬ ∀ p ∈ result.pipelines, GuardsDeletes p.ir ∧ RunsGuarded p.ir) ∧
    ∃ result, compileSource demoHost (demoSource skippableSteps) = some result ∧
      result.valid = true ∧ ∃ p ∈ result.pipelines, ¬ GuardsDeletes p.ir ∧ ¬ RunsGuarded p.ir := by
  have hnext : ∀ steps erase, steps ∈ sourceSteps (demoSource steps) →
      steps[0]? = some (.obj (demoStep (str "look") (str "inspect"))) → .obj erase ∈ steps →
      stepName demoHost [] erase = strip (nextStep demoHost steps 0) →
      operationOf demoHost erase = some .delete →
      ¬ SourceGuards demoHost (demoSource steps) := by
    intro steps erase hsteps hlook herase hname hdel hguards
    have happroval := ((hguards steps hsteps).entries 0 _ .inspect .success _ hlook
      (by decide +kernel) (.next nofun nofun (by decide +kernel)) erase herase hname hdel).1
    exact nomatch happroval
  obtain ⟨hasty, hhasty, hv⟩ := compiles_of_any (demoSource hastySteps) (by decide +kernel)
  obtain ⟨interpreted, hinterpreted, hv'⟩ :=
    compiles_of_any (demoSource interpretedSteps) (by decide +kernel)
  obtain ⟨skippable, hskippable, hv''⟩ :=
    compiles_of_any (demoSource skippableSteps) (by decide +kernel)
  refine ⟨⟨hasty, hhasty, hv, ?_⟩, ⟨interpreted, hinterpreted, hv', ?_⟩,
    skippable, hskippable, hv'', ?_⟩
  · rw [pipelines_guarded_iff hhasty hv]
    exact hnext hastySteps _ List.mem_cons_self rfl (List.mem_cons_of_mem _ List.mem_cons_self)
      (by decide +kernel) (by decide +kernel)
  · rw [pipelines_guarded_iff hinterpreted hv']
    exact hnext interpretedSteps _ List.mem_cons_self rfl
      (List.mem_cons_of_mem _ List.mem_cons_self) (by decide +kernel) (by decide +kernel)
  · have hruns : ∀ r ∈ compileSource demoHost (demoSource skippableSteps), ∃ p ∈ r.pipelines,
        ¬ GuardsDeletes p.ir ∧ SkipsApproval p.ir [] := by decide +kernel
    obtain ⟨p, hp, hguards, hskips⟩ := hruns skippable hskippable
    exact ⟨p, hp, hguards, not_runsGuarded_of_skips hskips⟩

/-- An agent whose deletion follows its approval compiles, and is guarded. -/
theorem compiled_agents_guarded_careful :
    ∃ result, compileSource demoHost (demoSource carefulSteps) = some result ∧
      (∀ p ∈ result.pipelines, ClosedIr p.ir) ∧
      (∀ p ∈ result.pipelines, GuardsDeletes p.ir ∧ RunsGuarded p.ir) ∧
      SourceGuards demoHost (demoSource carefulSteps) := by
  obtain ⟨result, hresult, hv⟩ := compiles_of_any (demoSource carefulSteps) (by decide +kernel)
  obtain ⟨hclosed, hguarded⟩ := compiled_agents_guarded demoHost _ result hresult hv
  have hguards : ∀ r ∈ compileSource demoHost (demoSource carefulSteps),
      ∀ p ∈ r.pipelines, GuardsDeletes p.ir := by decide +kernel
  have hall : ∀ p ∈ result.pipelines, GuardsDeletes p.ir ∧ RunsGuarded p.ir := by
    intro p hp
    have hg := hguards result hresult p hp
    exact ⟨hg, runsGuarded_of_guardsDeletes (hclosed p hp) hg⟩
  exact ⟨result, hresult, hclosed, hall, hguarded.mp hall⟩

end AI2Apps.AgentBuilder
