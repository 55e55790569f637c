import AI2Apps.AgentBuilder.Repairs

/-!
# What authority a repair gains

The boundary of a repair is drawn by what the sources say: by the effects the authors
declare, by the ids of disabled capabilities too, and not at all between sources of one
pipeline.  What is compiled is something else.  The draft's active generation is written
down when the repair is created, and not looked at when it is activated.

* `NoGain`: what is asked of a compiled candidate; `Comparable`: when the boundary grants it.
* `noGain_of_boundary`: one candidate.
* `Sound`: what is asked of the activations of a run; `Orderly`: when it is granted.
* `repairs_gain_nothing`: whole runs.
-/

namespace AI2Apps.AgentBuilder.Repairs

open TextOrder (strip)

/-! ## What a candidate may gain -/

def effectName : Effect → Str
  | .read => str "read"
  | .interact => str "interact"
  | .destructive => str "destructive"
  | .restricted => str "restricted"

/-- The level of a compiled effect, by the ranks of the boundary. -/
def effectLevel (e : Effect) : ℕ := effectRank (effectName e)

/-- A compiled candidate has the authority of the compiled base. -/
structure NoGain (base candidate : CompileResult) : Prop where
  scope : sameSet base.siteScope candidate.siteScope = true
  ids : ∀ id, (∃ q ∈ base.pipelines, q.capabilityId = id) ↔ ∃ p ∈ candidate.pipelines, p.capabilityId = id
  effects : ∀ p ∈ candidate.pipelines, ∀ q ∈ base.pipelines, q.capabilityId = p.capabilityId →
    ∀ e ∈ p.ir.effects, ∃ f ∈ q.ir.effects, effectLevel e ≤ effectLevel f

/-- Two lists of capabilities that the boundary compares as they are compiled: an id names
one capability, enabled in both or in none; the base declares no higher effect than it is
compiled to, and the candidate is compiled to none higher than it declares. -/
structure ComparableItems (host : CompileHost) (items items' : List Json) : Prop where
  nodup : ((objectsOf items).map (rawId host.toEnv)).Nodup
  nodup' : ((objectsOf items').map (rawId host.toEnv)).Nodup
  enabled : ∀ c ∈ objectsOf items, ∀ c' ∈ objectsOf items',
    rawId host.toEnv c = rawId host.toEnv c' → disabled c = disabled c'
  declared : ∀ c ∈ enabledCapabilities items, ∀ step ∈ objectsOf (stepsOf c),
    ∃ step' ∈ objectsOf (stepsOf c), ∃ op, compiledOperation host step' = some op ∧
      effectRank (declaredEffect host.toEnv step) ≤ effectLevel (compiledEffect step' op)
  compiled : ∀ c ∈ enabledCapabilities items', ∀ step ∈ objectsOf (stepsOf c), ∀ op,
    compiledOperation host step = some op → ∃ step' ∈ objectsOf (stepsOf c),
      effectLevel (compiledEffect step op) ≤ effectRank (declaredEffect host.toEnv step')

/-- Two sources of several capabilities, of which the base compiles without errors. -/
def Comparable (host : CompileHost) (base candidate : Json.Object) : Prop :=
  (∃ b, compileSource host base = some b ∧ b.valid = true) ∧ ∃ items items',
    Json.lookup (str "capabilities") base = some (.arr items) ∧
    Json.lookup (str "capabilities") candidate = some (.arr items') ∧
    ComparableItems host items items'

/-! ## The boundary grants it -/

section Boundary

variable {host : CompileHost} {base candidate : Json.Object}

theorem listOf_of_setOf {value : Option Json} {items : List Json} (h : setOf value = some items) :
    listOf value = some items := by
  obtain ⟨items', hitems, h⟩ := Option.bind_eq_some_iff.mp h
  split_ifs at h
  rw [hitems, h]

theorem mem_enabledCapabilities {items : List Json} {c : Json.Object} :
    c ∈ enabledCapabilities items ↔ c ∈ objectsOf items ∧ disabled c = false := by
  unfold enabledCapabilities objectsOf
  rw [List.mem_filterMap, List.mem_filterMap]
  constructor
  · rintro ⟨item, hitem, henabled⟩
    cases item with
    | obj capability =>
      unfold enabledCapability at henabled
      dsimp only at henabled
      split_ifs at henabled with hdisabled
      cases henabled
      exact ⟨⟨.obj c, hitem, rfl⟩, Bool.eq_false_iff.mpr hdisabled⟩
    | _ => exact nomatch henabled
  · rintro ⟨⟨item, hitem, hobj⟩, henabled⟩
    cases item with
    | obj capability =>
      cases hobj
      refine ⟨.obj c, hitem, ?_⟩
      unfold enabledCapability
      dsimp only
      rw [henabled]
      rfl
    | _ => exact nomatch hobj

theorem objectsOf_map (objects : List Json.Object) : objectsOf (objects.map .obj) = objects := by
  unfold objectsOf
  rw [List.filterMap_map]
  exact List.filterMap_some

theorem capabilityIdOf_eq (c : Json.Object) : capabilityIdOf host c = strip (rawId host.toEnv c) := rfl

/-- A compiled capability has steps, all of them objects. -/
theorem steps_of_compiled {source c : Json.Object} {p : Pipeline}
    (h : CapabilityCompiled host source c p) :
    ∃ objects, stepsOf c = objects.map .obj ∧ StepsCompiled host objects p.ir := by
  obtain ⟨-, exportName, hcompiled⟩ := h
  rw [← stepsOf_subsource c (capabilityIdOf host c) exportName]
  exact compileSingle_ok hcompiled

theorem mem_effectsOf {steps : List CompiledStep} {e : Effect} :
    e ∈ effectsOf steps ↔ ∃ s ∈ steps, s.effect = e := by
  unfold effectsOf
  rw [List.mem_filter, List.any_eq_true]
  simp only [decide_eq_true_eq, and_iff_right_iff_imp]
  intro _
  cases e <;> decide

theorem maxRank_mem {effects : List Str} (h : effects ≠ []) :
    ∃ effect ∈ effects, maxRank effects ≤ effectRank effect := by
  induction effects with
  | nil => exact absurd rfl h
  | cons e effects ih =>
    rcases Nat.le_total (maxRank effects) (effectRank e) with hle | hle
    · exact ⟨e, List.mem_cons_self, Nat.max_le.mpr ⟨Nat.le_refl _, hle⟩⟩
    · by_cases hnil : effects = []
      · subst hnil
        exact ⟨e, List.mem_cons_self, Nat.max_le.mpr ⟨Nat.le_refl _, Nat.zero_le _⟩⟩
      · obtain ⟨effect, hmem, hmax⟩ := ih hnil
        exact ⟨effect, List.mem_cons_of_mem e hmem, Nat.max_le.mpr ⟨hle.trans hmax, hmax⟩⟩

/-- What an allowed effect is no higher than. -/
theorem exists_of_allowed {effects : List Str} {effect : Str} (hne : effects ≠ [])
    (h : effectAllowed effects effect = true) : ∃ b ∈ effects, effectRank effect ≤ effectRank b := by
  unfold effectAllowed at h
  rw [Bool.or_eq_true, decide_eq_true_eq, decide_eq_true_eq] at h
  obtain ⟨b, hb, hmax⟩ := maxRank_mem hne
  rcases h with hmem | hle
  · exact ⟨effect, hmem, Nat.le_refl _⟩
  · exact ⟨b, hb, hle.trans hmax⟩

theorem checkEffects_ok {env : Env} {items : Dict Str Json.Object} {entries : List (Str × Json.Object)}
    (h : checkEffects env items entries = .ok ()) : ∀ e ∈ entries, ∃ item effects effects',
      items.get? e.1 = some item ∧ declaredEffects env item = some effects ∧
        declaredEffects env e.2 = some effects' ∧ ∀ x ∈ effects', effectAllowed effects x = true := by
  induction entries with
  | nil => exact fun _ he => nomatch he
  | cons e entries ih =>
    obtain ⟨id, c⟩ := e
    unfold checkEffects at h
    split at h
    · rename_i effects effects' hitem heffects'
      split_ifs at h with hall
      · obtain ⟨item, hget, heffects⟩ := Option.bind_eq_some_iff.mp hitem
        intro e' he'
        rcases List.mem_cons.mp he' with rfl | he'
        · exact ⟨item, effects, effects', hget, heffects, heffects', List.all_eq_true.mp hall⟩
        · exact ih h e' he'
    · exact nomatch h

theorem declaredEffects_of_steps {env : Env} {c : Json.Object} {objects : List Json.Object}
    (h : stepsOf c = objects.map .obj) (hne : objects ≠ []) :
    declaredEffects env c = some (objects.map (declaredEffect env)) := by
  unfold stepsOf at h
  unfold declaredEffects
  split at h
  · rename_i steps hsteps
    rw [hsteps, h]
    exact congrArg some (congrArg _ (objectsOf_map objects))
  · exact absurd (List.map_eq_nil_iff.mp h.symm) hne

theorem compileSource_listed {source : Json.Object} {items : List Json}
    (h : Json.lookup (str "capabilities") source = some (.arr items)) :
    compileSource host source = compileSite host source (.arr items) := by
  unfold compileSource
  rw [h]

/-- The capabilities of a list, by their ids. -/
theorem boundaryCapabilities_listed {env : Env} {source : Json.Object} {items : List Json}
    (h : Json.lookup (str "capabilities") source = some (.arr items)) :
    boundaryCapabilities env source =
      some (Dict.empty.merge ((objectsOf items).map fun item => (rawId env item, item))) := by
  unfold boundaryCapabilities
  rw [h]
  rfl

/-- Where ids are distinct, an id names the capability that has it. -/
theorem get?_boundary {env : Env} {objects : List Json.Object} (h : (objects.map (rawId env)).Nodup)
    {id : Str} {c : Json.Object} :
    ((Dict.empty : Dict Str Json.Object).merge (objects.map fun item => (rawId env item, item))).get? id =
      some c ↔ c ∈ objects ∧ rawId env c = id := by
  constructor
  · intro hget
    rcases Dict.mem_of_get?_merge hget with hmem | hempty
    · obtain ⟨c', hc', heq⟩ := List.mem_map.mp hmem
      obtain ⟨rfl, rfl⟩ := Prod.mk.inj heq
      exact ⟨hc', rfl⟩
    · exact nomatch hempty
  · rintro ⟨hc, rfl⟩
    refine Dict.get?_merge_of_mem ?_ (List.mem_map_of_mem hc)
    rw [List.map_map]
    exact h

/-- What the boundary says of two lists of capabilities with distinct ids. -/
theorem boundary_ok {items items' : List Json}
    (hitems : Json.lookup (str "capabilities") base = some (.arr items))
    (hitems' : Json.lookup (str "capabilities") candidate = some (.arr items'))
    (hnodup : ((objectsOf items).map (rawId host.toEnv)).Nodup)
    (hnodup' : ((objectsOf items').map (rawId host.toEnv)).Nodup)
    (h : validateRepairBoundary host.toEnv base candidate = .ok ()) :
    (∃ scope scope', listOf (Json.lookup (str "site_scope") base) = some scope ∧
      listOf (Json.lookup (str "site_scope") candidate) = some scope' ∧ sameSet scope scope' = true) ∧
    (∀ c ∈ objectsOf items, ∃ c' ∈ objectsOf items', rawId host.toEnv c' = rawId host.toEnv c) ∧
    ∀ c' ∈ objectsOf items', ∃ c ∈ objectsOf items, rawId host.toEnv c = rawId host.toEnv c' ∧
      ∃ effects effects', declaredEffects host.toEnv c = some effects ∧
        declaredEffects host.toEnv c' = some effects' ∧
        ∀ x ∈ effects', effectAllowed effects x = true := by
  unfold validateRepairBoundary at h
  split at h
  · rename_i scope scope' hscope hscope'
    rw [boundaryCapabilities_listed hitems, boundaryCapabilities_listed hitems'] at h
    dsimp only at h
    split_ifs at h with hsame hkeys
    rw [Bool.not_eq_true', Bool.not_eq_false] at hsame hkeys
    rw [Bool.and_eq_true, List.all_eq_true, List.all_eq_true] at hkeys
    refine ⟨⟨scope, scope', listOf_of_setOf hscope, listOf_of_setOf hscope', hsame⟩, ?_, ?_⟩
    · intro c hc
      obtain ⟨c', hc'⟩ := Option.isSome_iff_exists.mp (hkeys.1 (rawId host.toEnv c, c)
        (Dict.mem_entries_iff.mpr ((get?_boundary hnodup).mpr ⟨hc, rfl⟩)))
      exact ⟨c', (get?_boundary hnodup').mp hc'⟩
    · intro c' hc'
      obtain ⟨c, effects, effects', hc, heffects, heffects', hall⟩ := checkEffects_ok h
        (rawId host.toEnv c', c')
        (Dict.mem_entries_iff.mpr ((get?_boundary hnodup').mpr ⟨hc', rfl⟩))
      obtain ⟨hmem, hid⟩ := (get?_boundary hnodup).mp hc
      exact ⟨c, hmem, hid, effects, effects', heffects, heffects', hall⟩
  · cases h

/-- **Comparable sources are held apart by what they declare.** -/
theorem noGain_of_boundary {result : CompileResult} (hc : Comparable host base candidate)
    (h : validateRepairBoundary host.toEnv base candidate = .ok ())
    (hresult : compileSource host candidate = some result) (hvalid : result.valid = true) :
    ∃ b, compileSource host base = some b ∧ NoGain b result := by
  obtain ⟨⟨b, hb, hbvalid⟩, items, items', hitems, hitems', hcomparable⟩ := hc
  obtain ⟨⟨scope, scope', hscope, hscope', hsame⟩, hkept, hknown⟩ :=
    boundary_ok hitems hitems' hcomparable.nodup hcomparable.nodup' h
  rw [compileSource_listed hitems] at hb
  rw [compileSource_listed hitems'] at hresult
  obtain ⟨hall, hids, hsite⟩ := compileSite_ok hb hbvalid
  obtain ⟨hall', -, hsite'⟩ := compileSite_ok hresult hvalid
  refine ⟨b, (compileSource_listed hitems).trans hb, ?_, fun id => ⟨?_, ?_⟩, ?_⟩
  · rw [hsite] at hscope
    rw [hsite'] at hscope'
    rw [Option.some.inj hscope, Option.some.inj hscope']
    exact hsame
  · rintro ⟨q, hq, rfl⟩
    obtain ⟨c, hc, hcq⟩ := exists_left_of_forall₂ hall q hq
    obtain ⟨hmem, henabled⟩ := mem_enabledCapabilities.mp hc
    obtain ⟨c', hc', hid⟩ := hkept c hmem
    have henabled' := (hcomparable.enabled c hmem c' hc' hid.symm).symm.trans henabled
    obtain ⟨p, hp, hcp⟩ := exists_left_of_forall₂ hall'.flip c'
      (mem_enabledCapabilities.mpr ⟨hc', henabled'⟩)
    refine ⟨p, hp, ?_⟩
    rw [hcp.1, hcq.1, capabilityIdOf_eq, capabilityIdOf_eq, hid]
  · rintro ⟨p, hp, rfl⟩
    obtain ⟨c', hc', hcp⟩ := exists_left_of_forall₂ hall' p hp
    obtain ⟨hmem', henabled'⟩ := mem_enabledCapabilities.mp hc'
    obtain ⟨c, hc, hid, -⟩ := hknown c' hmem'
    have henabled := (hcomparable.enabled c hc c' hmem' hid).trans henabled'
    obtain ⟨q, hq, hcq⟩ := exists_left_of_forall₂ hall.flip c
      (mem_enabledCapabilities.mpr ⟨hc, henabled⟩)
    refine ⟨q, hq, ?_⟩
    rw [hcp.1, hcq.1, capabilityIdOf_eq, capabilityIdOf_eq, hid]
  · intro p hp q hq hid e he
    obtain ⟨c', hc', hcp⟩ := exists_left_of_forall₂ hall' p hp
    obtain ⟨c, hc, hcq⟩ := exists_left_of_forall₂ hall q hq
    obtain ⟨hmem', henabled'⟩ := mem_enabledCapabilities.mp hc'
    obtain ⟨d, hd, hdid, effects, effects', heffects, heffects', hallowed⟩ := hknown c' hmem'
    -- the base's capability of this id is the one the boundary looked at
    have hdenabled := (hcomparable.enabled d hd c' hmem' hdid).trans henabled'
    have hsame : c = d := by
      refine List.inj_on_of_nodup_map hids hc (mem_enabledCapabilities.mpr ⟨hd, hdenabled⟩) ?_
      rw [capabilityIdOf_eq d, hdid, ← capabilityIdOf_eq]
      exact Option.some.inj (hcq.1.symm.trans (hid.trans hcp.1))
    subst hsame
    obtain ⟨objects, hsteps, hcompiled⟩ := steps_of_compiled hcq
    obtain ⟨objects', hsteps', hcompiled'⟩ := steps_of_compiled hcp
    rw [declaredEffects_of_steps hsteps hcompiled.nonempty, Option.some_inj] at heffects
    rw [declaredEffects_of_steps hsteps' hcompiled'.nonempty, Option.some_inj] at heffects'
    subst heffects heffects'
    -- what is compiled is declared, what is declared is allowed, and what the base declares it is compiled to
    rw [hcompiled'.effects] at he
    obtain ⟨s, hs, rfl⟩ := mem_effectsOf.mp he
    obtain ⟨i, step, hi, hfrom⟩ := hcompiled'.source s hs
    obtain ⟨declared, hdeclared, hle⟩ := hcomparable.compiled c' hc' step
      (by rw [hsteps', objectsOf_map]; exact List.mem_of_getElem? hi) _ hfrom.operation
    rw [hsteps', objectsOf_map] at hdeclared
    obtain ⟨_, hbase, hle'⟩ := exists_of_allowed (by simpa using hcompiled.nonempty)
      (hallowed _ (List.mem_map_of_mem hdeclared))
    obtain ⟨base', hbase', rfl⟩ := List.mem_map.mp hbase
    obtain ⟨step', hstep', op, hop, hle''⟩ := hcomparable.declared c hc base'
      (by rw [hsteps, objectsOf_map]; exact hbase')
    rw [hsteps, objectsOf_map] at hstep'
    obtain ⟨j, hj⟩ := List.mem_iff_getElem?.mp hstep'
    obtain ⟨s', hs', hfrom'⟩ := hcompiled.compiled j step' hj
    refine ⟨s'.effect, ?_, ?_⟩
    · rw [hcompiled.effects]
      exact mem_effectsOf.mpr ⟨s', hs', rfl⟩
    · obtain rfl : s'.operation = op := Option.some.inj (hfrom'.operation.symm.trans hop)
      rw [hfrom.effect, hfrom'.effect]
      exact (hle.trans hle').trans hle''

end Boundary

/-! ## Runs -/

/-- A repair whose candidate gained nothing over the source it was held against. -/
def Backed (host : CompileHost) (s : System) (r : Repair) : Prop :=
  ∃ g b base, s.generations.get? r.candidateGeneration = some g ∧
    compileSource host r.source = some g.result ∧ s.bases.get? r.id = some (r.id, base) ∧
    compileSource host base = some b ∧ NoGain b g.result

/-- An activation of a repair that gained nothing, while the generation the repair was held
against was active. -/
def Granted (host : CompileHost) (s : System) (a : Activation) : Prop :=
  ∃ r, s.repairs.get? a.repairId = some r ∧ Backed host s r ∧ a.activeBefore = some r.baseGeneration

/-- No activation of a run gained authority. -/
def Sound (host : CompileHost) (s : System) : Prop := ∀ a ∈ s.activations, Granted host s a

/-- The draft a call is about to give another generation, and the generation it is to be. -/
def Call.replacing : Call → Option (Str × Str)
  | .updating repair _ => some (repair.draftId, repair.baseGeneration)
  | .switching repair => some (repair.draftId, repair.baseGeneration)
  | _ => none

/-- No other call is about to replace the draft's generation. -/
def Undisturbed (s : System) (t : Option ℕ) (draftId : Str) : Prop :=
  ∀ u call, some u ≠ t → s.calls u = some call → ∀ d g, call.replacing = some (d, g) → d ≠ draftId

/-- What is asked of an event in the state before it. -/
def Event.Orderly (host : CompileHost) (s : System) : Event → Prop
  | .createRepair _ args =>
    ∀ d, s.getDraft args.draftId args.owner = some d →
      validateRepairBoundary host.toEnv d.source args.source = .ok () →
      Comparable host d.source args.source
  | .activateGeneration draftId _ _ => Undisturbed s none draftId
  | .next t _ =>
    match s.calls t with
    | some (.activating repair) =>
      ∀ d, s.getDraft repair.draftId repair.owner = some d → d.activeGeneration = some repair.baseGeneration
    | some (.switching repair) => Undisturbed s (some t) repair.draftId
    | _ => True
  | _ => True

/-- Every event of a run is orderly. -/
def Orderly (host : CompileHost) (s : System) : List Event → Prop
  | [] => True
  | e :: events => e.Orderly host s ∧ Orderly host (s.step host e) events

/-! ## What a transaction keeps -/

/-- The active generation of a draft. -/
def Tables.active (db : Tables) (id : Str) : Option Str := (db.drafts.get? id).bind Draft.activeGeneration

/-- What was compiled stays, repairs keep all but their status, and no draft but the one
that is excepted gets another generation. -/
structure Kept (db db' : Tables) (except : Option Str) : Prop where
  generations : ∀ id g, db.generations.get? id = some g →
    ∃ g', db'.generations.get? id = some g' ∧ g'.result = g.result
  repairs : ∀ id r, db.repairs.get? id = some r → ∃ status,
    db'.repairs.get? id = some { r with status := status } ∧ (r.status ≠ .failed → status ≠ .failed)
  active : ∀ id, some id ≠ except → db'.active id = db.active id

theorem Kept.refl (db : Tables) (except : Option Str) : Kept db db except :=
  ⟨fun _ g hg => ⟨g, hg, rfl⟩, fun _ r hr => ⟨r.status, hr, id⟩, fun _ _ => rfl⟩

variable {db db' : Tables} {id owner : Str}

/-- A transaction that writes no repair. -/
theorem Kept.of_eq {except : Option Str} (hgenerations : ∀ id g, db.generations.get? id = some g →
      ∃ g', db'.generations.get? id = some g' ∧ g'.result = g.result) (hrepairs : db'.repairs = db.repairs)
    (hactive : ∀ id, some id ≠ except → db'.active id = db.active id) : Kept db db' except :=
  ⟨hgenerations, fun _ r hr => ⟨r.status, by rw [hrepairs]; exact hr, id⟩, hactive⟩

/-- A change of drafts that leaves their generations. -/
theorem active_update {p : Draft → Bool} {f : Draft → Draft} (hf : ∀ d, (f d).id = d.id)
    (hdrafts : db'.drafts = db.drafts.update p f hf)
    (hactive : ∀ d, (f d).activeGeneration = d.activeGeneration) (id : Str) :
    db'.active id = db.active id := by
  unfold Tables.active
  rw [hdrafts, Table.get?_update]
  cases db.drafts.get? id with
  | none => rfl
  | some d =>
    show (if p d = true then f d else d).activeGeneration = d.activeGeneration
    split_ifs
    · exact hactive d
    · rfl

/-- An update of drafts that leaves their generations keeps everything. -/
theorem Kept.setDrafts {p : Draft → Bool} {f : Draft → Draft} {hf : ∀ d, (f d).id = d.id}
    (hactive : ∀ d, (f d).activeGeneration = d.activeGeneration) :
    Kept db { db with drafts := db.drafts.update p f hf } none :=
  .of_eq (fun _ g hg => ⟨g, hg, rfl⟩) rfl fun id _ => active_update hf rfl hactive id

theorem Kept.trans {db'' : Tables} {except : Option Str} (h : Kept db db' except) (h' : Kept db' db'' except) :
    Kept db db'' except := by
  refine ⟨fun id g hg => ?_, fun id r hr => ?_, fun id hid => ?_⟩
  · obtain ⟨g', hg', heq⟩ := h.generations id g hg
    obtain ⟨g'', hg'', heq'⟩ := h'.generations id g' hg'
    exact ⟨g'', hg'', heq'.trans heq⟩
  · obtain ⟨status, hr', hstatus⟩ := h.repairs id r hr
    obtain ⟨status', hr'', hstatus'⟩ := h'.repairs id _ hr'
    exact ⟨status', hr'', fun hne => hstatus' (hstatus hne)⟩
  · exact (h'.active id hid).trans (h.active id hid)

theorem createDraft_kept {name : Str} {siteScope : List Json} {source : Json.Object}
    (h : createDraft id owner name siteScope source db = some db') :
    Kept db db' none ∧ db'.repairs = db.repairs := by
  unfold createDraft at h
  split_ifs at h
  obtain ⟨drafts, hdrafts, rfl⟩ := Option.map_eq_some_iff.mp h
  refine ⟨.of_eq (fun _ g hg => ⟨g, hg, rfl⟩) rfl fun id' _ => ?_, rfl⟩
  unfold Tables.active
  dsimp only
  rw [Table.get?_insert hdrafts]
  split_ifs with hid
  · rw [← hid, (Table.rows_insert hdrafts).2]
    rfl
  · rfl

theorem updateDraft_kept {revision : ℕ} {change : DraftChange}
    (h : updateDraft id owner revision change db = some db') :
    Kept db db' none ∧ db'.repairs = db.repairs := by
  obtain ⟨d, -, h⟩ := Option.bind_eq_some_iff.mp h
  split_ifs at h
  rw [← Option.some.inj h]
  exact ⟨.setDrafts fun _ => rfl, rfl⟩

theorem archiveDraft_kept {revision : ℕ} (h : archiveDraft id owner revision db = some db') :
    Kept db db' none ∧ db'.repairs = db.repairs := by
  obtain ⟨d, -, h⟩ := Option.bind_eq_some_iff.mp h
  split_ifs at h
  rw [← Option.some.inj h]
  exact ⟨.setDrafts fun _ => rfl, rfl⟩

theorem reconcileSite_kept (primary : Str) (source : Json.Object) (siteScope : List Json)
    (duplicates : List Str) (db : Tables) :
    Kept db (reconcileSite primary source siteScope duplicates db) none := by
  have harchived : Kept db
      { db with
        drafts := db.drafts.update (fun d => d.id ∈ duplicates)
          (fun d => { d with status := .archived, revision := d.revision + 1 }) fun _ => rfl } none :=
    .setDrafts fun _ => rfl
  exact harchived.trans (.setDrafts fun _ => rfl)

theorem createGeneration_kept {draft : Draft} {result : CompileResult}
    (h : createGeneration draft id result db = some db') :
    Kept db db' none ∧ db'.repairs = db.repairs ∧
      ∃ g, db'.generations.get? id = some g ∧ g.result = result := by
  obtain ⟨generations, hgenerations, h⟩ := Option.map_eq_some_iff.mp h
  dsimp only at h
  have hstored : Kept db { db with generations := generations } none :=
    .of_eq (fun _ g hg => ⟨g, Table.get?_insert_of_some hgenerations hg, rfl⟩) rfl fun _ _ => rfl
  have hnew := Table.get?_insert hgenerations id
  rw [if_pos rfl] at hnew
  split_ifs at h
  · rw [← h]
    exact ⟨hstored.trans (.setDrafts fun _ => rfl), rfl, _, hnew, rfl⟩
  · rw [← h]
    exact ⟨hstored, rfl, _, hnew, rfl⟩

theorem activateGeneration_kept {draftId generationId : Str}
    (h : activateGeneration draftId generationId owner db = some db') :
    Kept db db' (some draftId) ∧ db'.repairs = db.repairs := by
  obtain ⟨g, -, h⟩ := Option.bind_eq_some_iff.mp h
  obtain ⟨d, -, h⟩ := Option.bind_eq_some_iff.mp h
  split_ifs at h
  rw [← Option.some.inj h]
  refine ⟨.of_eq (fun id g hg => ?_) rfl fun id hid => ?_, rfl⟩
  · dsimp only [Tables.setDraft]
    rw [Table.get?_update, Table.get?_update, hg]
    refine ⟨_, rfl, ?_⟩
    dsimp only
    split_ifs <;> rfl
  · unfold Tables.active
    dsimp only [Tables.setDraft]
    rw [Table.get?_update_of_not]
    intro d hd
    have hne : ¬ d.id = draftId := by
      rw [Table.key_of_get? hd]
      exact fun heq => hid (congrArg some heq)
    exact decide_eq_false hne

/-! ## The invariant -/

/-- A repair that was read is there, with another status perhaps. -/
def Held (s : System) (r : Repair) : Prop :=
  ∃ status, s.repairs.get? r.id = some { r with status := status } ∧ status ≠ .failed

/-- What a call knows. -/
def CallOk (host : CompileHost) (s : System) : Call → Prop
  | .compiling _ _ => True
  | .checked args draft _ result => compileSource host args.source = some result ∧
      (result.valid = true → ∃ b, compileSource host draft.source = some b ∧ NoGain b result)
  | .stored args draft _ result generationId => compileSource host args.source = some result ∧
      (result.valid = true → ∃ b, compileSource host draft.source = some b ∧ NoGain b result) ∧
      ∃ g, s.generations.get? generationId = some g ∧ g.result = result
  | .activating repair | .finishing repair => Held s repair
  | .updating repair _ | .switching repair =>
    Held s repair ∧ s.active repair.draftId = some repair.baseGeneration

structure Inv (host : CompileHost) (s : System) : Prop where
  repairs : ∀ id r, s.repairs.get? id = some r → r.status ≠ .failed → Backed host s r
  calls : ∀ t call, s.calls t = some call → CallOk host s call
  sound : Sound host s

section Invariant

variable {host : CompileHost} {s s' : System} {except : Option Str}

theorem Backed.kept {r : Repair} (h : Backed host s r) (hk : Kept s.toTables s'.toTables except)
    (hbases : ∀ id base, s.bases.get? id = some base → s'.bases.get? id = some base) :
    Backed host s' r := by
  obtain ⟨g, b, base, hg, hcompiled, hbase, hb, hgain⟩ := h
  obtain ⟨g', hg', heq⟩ := hk.generations _ g hg
  exact ⟨g', b, base, hg', hcompiled.trans (congrArg some heq.symm), hbases _ _ hbase, hb,
    by rw [heq]; exact hgain⟩

theorem Held.kept {r : Repair} (h : Held s r) (hk : Kept s.toTables s'.toTables except) :
    Held s' r := by
  obtain ⟨status, hr, hstatus⟩ := h
  obtain ⟨status', hr', hkept⟩ := hk.repairs _ _ hr
  exact ⟨status', hr', hkept hstatus⟩

theorem CallOk.kept {call : Call} (h : CallOk host s call) (hk : Kept s.toTables s'.toTables except)
    (hother : ∀ d g, call.replacing = some (d, g) → some d ≠ except) : CallOk host s' call := by
  cases call with
  | compiling draft result => exact trivial
  | checked args draft base result => exact h
  | stored args draft base result generationId =>
    obtain ⟨hcompiled, hgain, g, hg, hresult⟩ := h
    obtain ⟨g', hg', heq⟩ := hk.generations _ g hg
    exact ⟨hcompiled, hgain, g', hg', heq.trans hresult⟩
  | activating repair => exact Held.kept h hk
  | updating repair draft =>
    exact ⟨h.1.kept hk, (hk.active _ (hother _ _ rfl)).trans h.2⟩
  | switching repair =>
    exact ⟨h.1.kept hk, (hk.active _ (hother _ _ rfl)).trans h.2⟩
  | finishing repair => exact Held.kept h hk

theorem Granted.kept {a : Activation} (h : Granted host s a)
    (hk : Kept s.toTables s'.toTables except)
    (hbases : ∀ id base, s.bases.get? id = some base → s'.bases.get? id = some base) :
    Granted host s' a := by
  obtain ⟨r, hr, hbacked, hactive⟩ := h
  obtain ⟨status, hr', -⟩ := hk.repairs _ r hr
  exact ⟨{ r with status := status }, hr', hbacked.kept hk hbases, hactive⟩

/-- What is to be shown of a step: what it adds is in order, and the rest is kept. -/
theorem Inv.of_kept (h : Inv host s) (hk : Kept s.toTables s'.toTables except)
    (hbases : ∀ id base, s.bases.get? id = some base → s'.bases.get? id = some base)
    (hrepairs : ∀ id r, s'.repairs.get? id = some r → r.status ≠ .failed → Backed host s' r ∨
      ∃ status, s.repairs.get? id = some { r with status := status } ∧ status ≠ .failed)
    (hcalls : ∀ u call, s'.calls u = some call → CallOk host s' call ∨
      s.calls u = some call ∧ ∀ d g, call.replacing = some (d, g) → some d ≠ except)
    (hactivations : ∀ a ∈ s'.activations, a ∈ s.activations ∨ Granted host s' a) :
    Inv host s' := by
  refine ⟨fun id r hr hstatus => ?_, fun u call hcall => ?_, fun a ha => ?_⟩
  · rcases hrepairs id r hr hstatus with hbacked | ⟨status, hold, hne⟩
    · exact hbacked
    · exact (h.repairs id _ hold hne).kept hk hbases
  · rcases hcalls u call hcall with hok | ⟨hold, hother⟩
    · exact hok
    · exact (h.calls u call hold).kept hk hother
  · rcases hactivations a ha with hold | hgranted
    · exact (h.sound a hold).kept hk hbases
    · exact hgranted

/-- A transaction of no call. -/
theorem Inv.write (h : Inv host s) {db : Option Tables}
    (hdb : ∀ db', db = some db' → Kept s.toTables db' except ∧ db'.repairs = s.repairs)
    (hother : ∀ d, except = some d → Undisturbed s none d) : Inv host (s.write db) := by
  cases hdb' : db with
  | none => exact h
  | some db' =>
    obtain ⟨hk, hrepairs⟩ := hdb db' hdb'
    refine h.of_kept hk (fun _ _ => id) (fun id r hr hstatus => .inr ⟨r.status, ?_, hstatus⟩)
      (fun u call hcall => .inr ⟨hcall, fun d g hreplacing heq => ?_⟩) fun a ha => .inl ha
    · have hsame : db'.repairs.get? id = some r := hr
      rw [hrepairs] at hsame
      exact hsame
    · exact hother d heq.symm u call nofun hcall d g hreplacing rfl

theorem Inv.begin (h : Inv host s) {t : ℕ} {r : Except RepairError Call}
    (hr : ∀ call, r = .ok call → CallOk host s call) : Inv host (s.begin t r) := by
  unfold System.begin
  split
  · rename_i call hfree
    refine h.of_kept (.refl _ none) (fun _ _ => id) (fun id r hr hstatus => .inr ⟨r.status, hr, hstatus⟩)
      ?_ fun a ha => .inl ha
    refine TaskTable.forall_update (fun call' heq => ?_) fun u call' _ hcall' =>
      .inr ⟨hcall', fun _ _ _ => nofun⟩
    obtain rfl := Option.some.inj heq
    exact .inl (hr call rfl)
  · exact h

/-- A call that moves on without a write. -/
theorem Inv.setCall (h : Inv host s) {t : ℕ} {call : Option Call}
    (hcall : ∀ c, call = some c → CallOk host s c) : Inv host (s.setCall t call) :=
  h.of_kept (.refl _ none) (fun _ _ => id) (fun _ r hr hstatus => .inr ⟨r.status, hr, hstatus⟩)
    (TaskTable.forall_update (fun c heq => .inl (hcall c heq)) fun _ _ _ hc => .inr ⟨hc, fun _ _ _ => nofun⟩)
    fun _ ha => .inl ha

/-- A transaction of a call that writes no repair and activates nothing. -/
theorem Inv.writeCall (h : Inv host s) {t : ℕ} {db : Option Tables} {call : Option Call}
    (hdb : ∀ db', db = some db' → Kept s.toTables db' none ∧ db'.repairs = s.repairs)
    (hcall : ∀ db' c, db = some db' → call = some c → CallOk host { s with toTables := db' } c) :
    Inv host (s.writeCall t db call) := by
  refine (h.write hdb fun _ => nofun).setCall fun c hc => ?_
  cases hdb' : db with
  | none =>
    rw [hdb'] at hc
    exact nomatch hc
  | some db' =>
    rw [hdb'] at hc
    exact hcall db' c hdb' hc

/-- What `create_repair` has found when it comes to its first write. -/
theorem createRepair_ok {args : RepairArgs} {call : Call} (h : createRepair host args db = .ok call) :
    ∃ draft base result,
      call = .checked args draft base result ∧ db.getDraft args.draftId args.owner = some draft ∧
      validateRepairBoundary host.toEnv draft.source args.source = .ok () ∧
      compileSource host args.source = some result := by
  unfold createRepair at h
  split_ifs at h
  cases hdraft : db.getDraft args.draftId args.owner with
  | none =>
    rw [hdraft] at h
    exact nomatch h
  | some draft =>
    rw [hdraft] at h
    dsimp only at h
    split at h
    · exact nomatch h
    · rename_i base _
      split at h
      · exact nomatch h
      · rename_i hboundary
        split at h
        · exact nomatch h
        · rename_i result hresult
          exact ⟨draft, base, result, (Except.ok.inj h).symm, rfl, hboundary, hresult⟩

theorem readRepair_ok {repairId : Str} {call : Call} (h : readRepair repairId owner db = .ok call) :
    ∃ r, call = .activating r ∧ db.repairs.get? r.id = some r ∧ r.status ≠ .failed := by
  unfold readRepair at h
  split at h
  · cases h
  · rename_i r hr
    split_ifs at h with hbad
    obtain ⟨hget, -⟩ := Option.filter_eq_some_iff.mp hr
    rw [not_or, not_not] at hbad
    refine ⟨r, (Except.ok.inj h).symm, ?_, ?_⟩
    · rw [Table.key_of_get? hget]
      exact hget
    · rw [hbad.1]
      intro hstatus
      cases hstatus

/-- The end of `create_repair`: a repair that is validated is backed. -/
theorem stored_inv (h : Inv host s) {t : ℕ} {args : RepairArgs} {draft : Draft} {base : Str}
    {result : CompileResult} {generationId : Str}
    (hcall : s.calls t = some (.stored args draft base result generationId)) :
    Inv host (s.continue t id (.stored args draft base result generationId)) := by
  obtain ⟨hcompiled, hgain, g, hg, hresult⟩ := h.calls t _ hcall
  unfold System.continue
  dsimp only
  split
  · rename_i db bases hdb hbases
    obtain ⟨repairs, hrepairs, rfl⟩ := Option.map_eq_some_iff.mp hdb
    have hkeptBases : ∀ k b, s.bases.get? k = some b → bases.get? k = some b := fun k b hb =>
      Table.get?_insert_of_some hbases hb
    have hk : Kept s.toTables { s.toTables with repairs := repairs } none :=
      ⟨fun _ g hg => ⟨g, hg, rfl⟩,
        fun _ r hr => ⟨r.status, Table.get?_insert_of_some hrepairs hr, fun hne => hne⟩, fun _ _ => rfl⟩
    refine h.of_kept hk hkeptBases (fun id' r hr hstatus => ?_) ?_ fun a ha => .inl ha
    · have hfound : repairs.get? id' = some r := hr
      rw [Table.get?_insert hrepairs] at hfound
      by_cases hid : id = id'
      · rw [if_pos hid] at hfound
        rw [← Option.some.inj hfound] at hstatus ⊢
        have hvalid : result.valid = true := by
          by_contra hinvalid
          exact hstatus (if_neg hinvalid)
        obtain ⟨b, hb, hno⟩ := hgain hvalid
        have hbase := Table.get?_insert hbases id
        rw [if_pos rfl] at hbase
        exact .inl ⟨g, b, draft.source, hg, hcompiled.trans (congrArg some hresult.symm), hbase, hb,
          by rw [hresult]; exact hno⟩
      · rw [if_neg hid] at hfound
        exact .inr ⟨r.status, hfound, hstatus⟩
    · exact TaskTable.forall_update (fun _ heq => nomatch heq) fun _ _ _ hc =>
        .inr ⟨hc, fun _ _ _ => nofun⟩
  · exact h.setCall fun _ => nofun

/-- The activation itself: the generation that was read is still the active one. -/
theorem switching_inv (h : Inv host s) {t : ℕ} {repair : Repair}
    (hcall : s.calls t = some (.switching repair)) (ho : Undisturbed s (some t) repair.draftId) :
    Inv host (s.continue t id (.switching repair)) := by
  obtain ⟨hheld, hactive⟩ := h.calls t _ hcall
  unfold System.continue
  dsimp only
  split
  · exact h.setCall fun _ => nofun
  · rename_i db hdb
    obtain ⟨hk, hrepairs⟩ := activateGeneration_kept hdb
    refine h.of_kept hk (fun _ _ hb => hb) (fun id r hr hstatus => .inr ⟨r.status, ?_, hstatus⟩) ?_ ?_
    · have hsame : db.repairs.get? id = some r := hr
      rw [hrepairs] at hsame
      exact hsame
    · refine TaskTable.forall_update (fun c heq => ?_) fun u c hne hc => .inr ⟨hc, fun d g hr heq => ?_⟩
      · obtain rfl := Option.some.inj heq
        exact .inl (hheld.kept hk)
      · exact ho u c (fun heq => hne (Option.some.inj heq)) hc d g hr (Option.some.inj heq)
    · intro a ha
      rcases List.mem_append.mp ha with hold | hnew
      · exact .inl hold
      · obtain rfl := List.mem_singleton.mp hnew
        obtain ⟨status, hr, hne⟩ := hheld
        have hbacked : Backed host { s with toTables := db } { repair with status := status } :=
          (h.repairs _ _ hr hne).kept hk fun _ _ hb => hb
        exact .inr ⟨{ repair with status := status }, by rw [← hrepairs] at hr; exact hr, hbacked, hactive⟩

theorem finishing_inv (h : Inv host s) {t : ℕ} {repair : Repair}
    (hcall : s.calls t = some (.finishing repair)) :
    Inv host (s.continue t id (.finishing repair)) := by
  have hheld : Held s repair := h.calls t _ hcall
  have hlookup : ∀ id, (s.repairs.update (fun r => r.id = repair.id)
      (fun r => { r with status := .activated }) fun _ => rfl).get? id =
        (s.repairs.get? id).map fun r =>
          if decide (r.id = repair.id) = true then { r with status := .activated } else r :=
    fun id => Table.get?_update _ _ _ _ id
  have hk : Kept s.toTables
      { s.toTables with
        repairs := s.repairs.update (fun r => r.id = repair.id)
          (fun r => { r with status := .activated }) fun _ => rfl } none := by
    refine ⟨fun _ g hg => ⟨g, hg, rfl⟩, fun id r hr => ?_, fun _ _ => rfl⟩
    dsimp only
    rw [hlookup, hr, Option.map_some]
    split_ifs
    · exact ⟨.activated, rfl, fun _ => nofun⟩
    · exact ⟨r.status, rfl, fun hne => hne⟩
  refine h.of_kept hk (fun _ _ hb => hb) (fun id r hr hstatus => .inr ?_) ?_ fun a ha => .inl ha
  · have hfound := (hlookup id).symm.trans hr
    obtain ⟨old, hold, heq⟩ := Option.map_eq_some_iff.mp hfound
    split_ifs at heq with hid
    · -- the row that is marked was validated or activated before
      obtain ⟨status, hr', hne⟩ := hheld
      have hkey : repair.id = id := (decide_eq_true_eq.mp hid).symm.trans (Table.key_of_get? hold)
      rw [← hkey] at hold ⊢
      rw [hold, Option.some.injEq] at hr'
      refine ⟨status, ?_, hne⟩
      rw [hold, ← heq, hr']
    · rw [heq] at hold
      exact ⟨r.status, hold, hstatus⟩
  · exact TaskTable.forall_update (fun _ heq => nomatch heq) fun _ _ _ hc =>
      .inr ⟨hc, fun _ _ _ => nofun⟩

theorem continue_inv (h : Inv host s) {t : ℕ} {call : Call} (hcall : s.calls t = some call)
    (ho : (Event.next t id).Orderly host s) : Inv host (s.continue t id call) := by
  have hok := h.calls t call hcall
  unfold Event.Orderly at ho
  dsimp only at ho
  rw [hcall] at ho
  cases call with
  | compiling draft result =>
    refine h.writeCall (fun db' hdb => ?_) fun _ _ _ => nofun
    obtain ⟨hk, hrepairs, -⟩ := createGeneration_kept hdb
    exact ⟨hk, hrepairs⟩
  | checked args draft base result =>
    refine h.writeCall (fun db' hdb => ?_) fun db' c hdb hc => ?_
    · obtain ⟨hk, hrepairs, -⟩ := createGeneration_kept hdb
      exact ⟨hk, hrepairs⟩
    · obtain rfl := Option.some.inj hc
      exact ⟨hok.1, hok.2, (createGeneration_kept hdb).2.2⟩
  | stored args draft base result generationId => exact stored_inv h hcall
  | activating repair =>
    refine h.setCall fun c hc => ?_
    obtain ⟨d, hd, rfl⟩ := Option.map_eq_some_iff.mp hc
    refine ⟨hok, ?_⟩
    have hactive : d.activeGeneration = some repair.baseGeneration := ho d hd
    unfold Tables.active
    rw [(Option.filter_eq_some_iff.mp hd).1]
    exact hactive
  | updating repair draft =>
    unfold System.continue
    dsimp only
    split
    · exact h.setCall fun _ => nofun
    · refine h.writeCall (fun db' hdb => updateDraft_kept hdb) fun db' c hdb hc => ?_
      obtain rfl := Option.some.inj hc
      have hk := (updateDraft_kept hdb).1
      exact ⟨hok.1.kept hk, (hk.active _ nofun).trans hok.2⟩
  | switching repair => exact switching_inv h hcall ho
  | finishing repair => exact finishing_inv h hcall

theorem step_inv (h : Inv host s) {e : Event} (ho : e.Orderly host s) : Inv host (s.step host e) := by
  cases e with
  | createDraft id owner name siteScope source =>
    exact h.write (fun db' hdb => createDraft_kept hdb) fun _ => nofun
  | updateDraft id owner revision change =>
    exact h.write (fun db' hdb => updateDraft_kept hdb) fun _ => nofun
  | archiveDraft id owner revision =>
    exact h.write (fun db' hdb => archiveDraft_kept hdb) fun _ => nofun
  | reconcileSite primary source siteScope duplicates =>
    have hwrite : ∀ db', some (Repairs.reconcileSite primary source siteScope duplicates s.toTables) =
        some db' → Kept s.toTables db' none ∧ db'.repairs = s.repairs := by
      intro db' hdb
      obtain rfl := Option.some.inj hdb
      exact ⟨reconcileSite_kept primary source siteScope duplicates s.toTables, rfl⟩
    exact h.write hwrite fun _ => nofun
  | activateGeneration draftId generationId owner =>
    refine h.write (fun db' hdb => activateGeneration_kept hdb) fun d hd => ?_
    obtain rfl := Option.some.inj hd
    exact ho
  | compileDraft t id owner =>
    refine h.begin fun call hcall => ?_
    split at hcall
    · obtain rfl := Except.ok.inj hcall
      exact trivial
    · exact nomatch hcall
  | createRepair t args =>
    refine h.begin fun call hcall => ?_
    obtain ⟨draft, base, result, rfl, hdraft, hboundary, hresult⟩ := createRepair_ok hcall
    exact ⟨hresult, noGain_of_boundary (ho draft hdraft hboundary) hboundary hresult⟩
  | activateRepair t repairId owner =>
    refine h.begin fun call hcall => ?_
    obtain ⟨r, rfl, hr, hstatus⟩ := readRepair_ok hcall
    exact ⟨r.status, hr, hstatus⟩
  | next t id =>
    unfold System.step
    dsimp only
    cases hcall : s.calls t with
    | none => exact h
    | some call => exact continue_inv h hcall ho

theorem run_inv {events : List Event} (h : Inv host s) (ho : Orderly host s events) :
    Inv host (s.run host events) := by
  induction events generalizing s with
  | nil => exact h
  | cons e events ih => exact ih (step_inv h ho.1) ho.2

end Invariant

theorem initial_inv (host : CompileHost) : Inv host System.initial where
  repairs _ _ hr := absurd hr nofun
  calls _ call hcall := (Option.some_ne_none call (show none = some call from hcall).symm).elim
  sound _ ha := absurd ha List.not_mem_nil

/-- **No repair gains authority** in a run whose events are all orderly. -/
theorem repairs_gain_nothing (host : CompileHost) (events : List Event)
    (ho : Orderly host System.initial events) : Sound host (System.initial.run host events) :=
  (run_inv (initial_inv host) ho).sound

/-! ## Sample runs -/

/-- A source of one capability with one step. -/
def clean (operation : Str) : Json.Object := demoSource [.obj (demoStep (str "look") operation)]

/-- A draft is written, compiled and activated. -/
def published : List Event := [
  .createDraft (str "d") (str "o") (str "Agent") [] (clean (str "inspect")),
  .compileDraft 0 (str "d") (str "o"), .next 0 (str "g"),
  .activateGeneration (str "d") (str "g") (str "o")]

/-- A repair is created. -/
def repaired (operation : Str) : List Event := [
  .createRepair 1 ⟨str "o", str "d", str "site.clean", clean operation, str "manual"⟩,
  .next 1 (str "candidate"), .next 1 (str "r")]

/-- It is activated. -/
def activated : List Event := [
  .activateRepair 2 (str "r") (str "o"), .next 2 [], .next 2 [], .next 2 [], .next 2 []]

/-- The candidate clicks where the base inspects, and says nothing of it. -/
def gaining : List Event := published ++ repaired (str "click") ++ activated

/-- Another generation is activated before the repair. -/
def overtaken : List Event :=
  published ++ repaired (str "inspect") ++
    [.compileDraft 3 (str "d") (str "o"), .next 3 (str "h"),
      .activateGeneration (str "d") (str "h") (str "o")] ++ activated

/-- **A repair that reads becomes one that clicks, and a repair replaces a generation it
was not held against.** -/
theorem repair_gains :
    ¬ Sound demoHost (System.initial.run demoHost gaining) ∧
    ¬ Sound demoHost (System.initial.run demoHost overtaken) := by
  constructor
  · intro h
    have hactivated : (System.initial.run demoHost gaining).activations = [⟨str "r", some (str "g")⟩] := by
      decide +kernel
    obtain ⟨r, hr, ⟨g, b, base, hg, -, hbase, hb, hgain⟩, -⟩ := h ⟨str "r", some (str "g")⟩
      (by rw [hactivated]; exact List.mem_cons_self)
    have hclicks : ∀ r ∈ (System.initial.run demoHost gaining).repairs.get? (str "r"),
        ∀ g ∈ (System.initial.run demoHost gaining).generations.get? r.candidateGeneration,
          ∃ p ∈ g.result.pipelines, p.capabilityId = some (str "clean") ∧ Effect.interact ∈ p.ir.effects := by
      decide +kernel
    have hreads : ∀ r ∈ (System.initial.run demoHost gaining).repairs.get? (str "r"),
        ∀ base ∈ (System.initial.run demoHost gaining).bases.get? r.id,
          ∀ b ∈ compileSource demoHost base.2,
            ∃ q ∈ b.pipelines, q.capabilityId = some (str "clean") ∧ q.ir.effects = [.read] := by
      decide +kernel
    obtain ⟨p, hp, hpid, hpe⟩ := hclicks r hr g hg
    obtain ⟨q, hq, hqid, hqe⟩ := hreads r hr _ hbase b hb
    obtain ⟨f, hf, hle⟩ := hgain.effects p hp q hq (hqid.trans hpid.symm) _ hpe
    rw [hqe, List.mem_singleton] at hf
    subst hf
    exact absurd hle (by decide)
  · intro h
    have hactivated : (System.initial.run demoHost overtaken).activations = [⟨str "r", some (str "h")⟩] := by
      decide +kernel
    obtain ⟨r, hr, -, hactive⟩ := h ⟨str "r", some (str "h")⟩
      (by rw [hactivated]; exact List.mem_cons_self)
    have hbase : ∀ r ∈ (System.initial.run demoHost overtaken).repairs.get? (str "r"),
        some (str "h") ≠ some r.baseGeneration := by
      decide +kernel
    exact hbase r hr hactive

/-! ## An orderly run -/

/-- The call an event is about. -/
def Event.call? : Event → Option ℕ
  | .compileDraft t _ _ | .createRepair t _ | .activateRepair t _ _ | .next t _ => some t
  | _ => none

/-- A call is moved on by its own events only. -/
theorem step_calls {host : CompileHost} {s : System} {e : Event} {u : ℕ} (h : e.call? ≠ some u) :
    (s.step host e).calls u = s.calls u := by
  have hbegin : ∀ t r, t ≠ u → (s.begin t r).calls u = s.calls u := by
    intro t r hne
    unfold System.begin
    split
    · exact Function.update_of_ne hne.symm _ _
    · rfl
  cases e with
  | compileDraft t id owner => exact hbegin t _ fun heq => h (congrArg some heq)
  | createRepair t args => exact hbegin t _ fun heq => h (congrArg some heq)
  | activateRepair t repairId owner => exact hbegin t _ fun heq => h (congrArg some heq)
  | next t id =>
    have hne : u ≠ t := fun heq => h (congrArg some heq.symm)
    unfold System.step
    dsimp only
    cases s.calls t with
    | none => rfl
    | some call =>
      cases call <;> unfold System.continue <;> dsimp only <;> (try split) <;>
        exact Function.update_of_ne hne _ _
  | _ => rfl

theorem run_calls {host : CompileHost} {s : System} {events : List Event} {u : ℕ}
    (h : ∀ e ∈ events, e.call? ≠ some u) : (s.run host events).calls u = s.calls u := by
  induction events generalizing s with
  | nil => rfl
  | cons e events ih =>
    exact (ih fun e' he' => h e' (List.mem_cons_of_mem e he')).trans
      (step_calls (h e List.mem_cons_self))

/-- A run with few calls disturbs nothing where none of them is about to replace a generation. -/
theorem undisturbed_of_run {host : CompileHost} {events : List Event} {n : ℕ} {t : Option ℕ} {d : Str}
    (hfew : ∀ e ∈ events, ∀ u ∈ e.call?, u < n)
    (hfree : ∀ u < n, some u ≠ t → ∀ call ∈ (System.initial.run host events).calls u,
      call.replacing.isNone = true) : Undisturbed (System.initial.run host events) t d := by
  intro u call hne hcall d' g hreplacing
  have hu : u < n := by
    by_contra hge
    rw [run_calls fun e he heq => hge (hfew e he u heq)] at hcall
    exact Option.some_ne_none call hcall.symm
  have hnone := hfree u hu hne call hcall
  rw [hreplacing] at hnone
  exact nomatch hnone

/-- The base is inspected again, and the repair activated. -/
def careful : List Event := published ++ repaired (str "inspect") ++ activated

theorem clean_comparable : Comparable demoHost (clean (str "inspect")) (clean (str "inspect")) := by
  refine ⟨compiles_of_any _ (by decide +kernel), _, _, rfl, rfl, ?_⟩
  refine ⟨by decide +kernel, by decide +kernel, ?_, ?_, ?_⟩
  · intro c hc c' hc' _
    obtain rfl := List.mem_singleton.mp hc
    obtain rfl := List.mem_singleton.mp hc'
    rfl
  · intro c hc step hstep
    obtain rfl := List.mem_singleton.mp hc
    obtain rfl := List.mem_singleton.mp hstep
    exact ⟨_, List.mem_singleton_self _, .inspect, by decide +kernel, by decide +kernel⟩
  · intro c hc step hstep op hop
    obtain rfl := List.mem_singleton.mp hc
    obtain rfl := List.mem_singleton.mp hstep
    have hinspect : compiledOperation demoHost (demoStep (str "look") (str "inspect")) = some .inspect := by
      decide +kernel
    obtain rfl := Option.some.inj (hinspect.symm.trans hop)
    exact ⟨_, List.mem_singleton_self _, by decide +kernel⟩

/-- The next transaction of a call is orderly wherever it is. -/
def Call.orderlyIn (db : Tables) : Call → Bool
  | .activating repair => (db.getDraft repair.draftId repair.owner).all fun d =>
      d.activeGeneration = some repair.baseGeneration
  | .switching _ => false
  | _ => true

theorem next_orderly {host : CompileHost} {s : System} {t : ℕ}
    (h : ∀ call ∈ s.calls t, call.orderlyIn s.toTables = true) : (Event.next t id).Orderly host s := by
  unfold Event.Orderly
  dsimp only
  split
  · rename_i repair hcall
    intro d hd
    have hall := h _ hcall
    unfold Call.orderlyIn at hall
    dsimp only at hall
    rw [hd, Option.all_some, decide_eq_true_eq] at hall
    exact hall
  · rename_i repair hcall
    exact nomatch h _ hcall
  · trivial

theorem switching_orderly {host : CompileHost} {s : System} {t : ℕ} (h : ∀ d, Undisturbed s (some t) d)
    (hcall : ∀ call ∈ s.calls t, call.replacing.isSome = true) :
    (Event.next t id).Orderly host s := by
  unfold Event.Orderly
  dsimp only
  split
  · rename_i repair hactivating
    exact nomatch hcall _ hactivating
  · exact h _
  · trivial

theorem careful_orderly : Orderly demoHost System.initial careful := by
  have hquiet : ∀ n t d, (∀ u < 3, some u ≠ t → ∀ call ∈
      (System.initial.run demoHost (careful.take n)).calls u, call.replacing.isNone = true) →
      Undisturbed (System.initial.run demoHost (careful.take n)) t d := by
    intro n t d hfree
    refine undisturbed_of_run (fun e he => ?_) hfree
    have hall : ∀ e ∈ careful, ∀ u ∈ e.call?, u < 3 := by decide +kernel
    exact hall e (List.mem_of_mem_take he)
  refine ⟨trivial, trivial, next_orderly (by decide +kernel), hquiet 3 _ _ (by decide +kernel), ?_,
    next_orderly (by decide +kernel), next_orderly (by decide +kernel), trivial,
    next_orderly (by decide +kernel), next_orderly (by decide +kernel),
    switching_orderly (fun d => hquiet 10 _ _ (by decide +kernel)) (by decide +kernel),
    next_orderly (by decide +kernel), trivial⟩
  intro d hd _
  have hsource : some (clean (str "inspect")) = some d.source := congrArg (Option.map Draft.source) hd
  rw [← Option.some.inj hsource]
  exact clean_comparable

theorem repairs_gain_nothing_careful :
    Sound demoHost (System.initial.run demoHost careful) ∧
      (System.initial.run demoHost careful).activations = [⟨str "r", some (str "g")⟩] :=
  ⟨repairs_gain_nothing demoHost careful careful_orderly, by decide +kernel⟩

end AI2Apps.AgentBuilder.Repairs
