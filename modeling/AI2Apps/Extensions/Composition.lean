import AI2Apps.Extensions.Operations

/-!
# Patches applied whole or not at all

A patch whose operation is refused should leave nothing behind.  The operations before the one
refused stay in the document, as do the objects that one made on its way, and its resources are
taken; and an operation can raise what is not a refusal.

* `Whole`: what is promised of a composition.
* `Fits`, `AtOnce`: a patch fits the document before it, or is refused by that document at once.
* `whole_iff_sound`: with patches of these two kinds the promise is kept, and where the targets of each
  patch are apart only with these.
* `compose_not_whole`: a patch that replaces one value and misses the next.
-/

namespace AI2Apps.Extensions

open Json (at? Open Apart)

variable {tools : Tools} {upstreamDigest : Str} {s s' : Composed} {patch : LocalPatch}
variable {patches pre post : List LocalPatch}

/-! ## The promise -/

/-- The patches not listed in the conflicts. -/
def kept (patches : List LocalPatch) (conflicts : List Conflict) : List LocalPatch :=
  patches.filter fun patch => patch.id ∉ conflicts.map Conflict.patchId

/-- A document and resources with each of the patches applied with all of its operations, none
where an operation is not applied. -/
def applyAll (tools : Tools) (upstreamDigest : Str) :
    Json.Object × Json.Object → List LocalPatch → Option (Json.Object × Json.Object)
  | d, [] => some d
  | (root, resources), patch :: rest =>
    match composeOperations tools upstreamDigest patch root patch.operations with
    | (root', .applied) => applyAll tools upstreamDigest (root', update resources patch.resources) rest
    | _ => none

/-- A composition returns, applies the patches not listed in its conflicts with all of their
operations, and a patch listed changes neither the document nor the resources. -/
structure Whole (tools : Tools) (upstream : Json.Object) (patches : List LocalPatch)
    (upstreamDigest : Str) (out : Composed) : Prop where
  returns : compose tools upstream patches upstreamDigest = .ok out
  applied : applyAll tools upstreamDigest (upstream, []) (kept patches out.conflicts) =
    some (out.result, out.resources)
  nothing : ∀ pre patch post, patches = pre ++ patch :: post →
    patch.id ∈ out.conflicts.map Conflict.patchId →
    ∃ before after, compose tools upstream pre upstreamDigest = .ok before ∧
      compose tools upstream (pre ++ [patch]) upstreamDigest = .ok after ∧
      after.result = before.result ∧ after.resources = before.resources

/-! ## The condition -/

/-- The document after an operation. -/
def after (tools : Tools) (upstreamDigest : Str) (patch : LocalPatch) (root operation : Json.Object) : Json.Object :=
  (composeOperation tools upstreamDigest patch root operation).1

/-- Each operation is accepted by the document that those before it make. -/
def Fits (tools : Tools) (upstreamDigest : Str) (patch : LocalPatch) : Json.Object → List Json.Object → Prop
  | _, [] => True
  | root, operation :: rest => Accepts tools upstreamDigest patch root operation ∧
      Fits tools upstreamDigest patch (after tools upstreamDigest patch root operation) rest

/-- The operation is accepted, and what it asks for is there already. -/
def Idle (tools : Tools) (upstreamDigest : Str) (patch : LocalPatch) (root operation : Json.Object) : Prop :=
  Dropped tools upstreamDigest patch root operation ∨ Admitted tools patch root operation ∧
    ∃ kind path, Asks operation kind path ∧ Open path (.obj root) ∧
      Change (valueOf operation) kind (at? path (.obj root)) (at? path (.obj root))

/-- The document before a patch refuses an operation of it, and has already what the operations before
that one ask for; its resources are there, too. -/
structure AtOnce (tools : Tools) (upstreamDigest : Str) (s : Composed) (patch : LocalPatch) : Prop where
  refused : ∃ before operation rest, patch.operations = before ++ operation :: rest ∧
    (∀ o ∈ before, Idle tools upstreamDigest patch s.result o) ∧
    Refuses tools upstreamDigest patch s.result operation
  resources : ∀ member ∈ patch.resources, Json.lookup member.1 s.resources = some member.2

/-- The targets of a patch are apart, and its resources are a dictionary. -/
structure Separate (tools : Tools) (patch : LocalPatch) : Prop where
  targets : patch.operations.Pairwise fun a b => Apart (pathOf tools a) (pathOf tools b)
  resources : (Json.keys patch.resources).Nodup

/-- It holds of every patch with what there is before it. -/
def AtEach (tools : Tools) (upstream : Json.Object) (patches : List LocalPatch) (upstreamDigest : Str)
    (P : Composed → LocalPatch → Prop) : Prop :=
  ∀ pre patch post s, patches = pre ++ patch :: post →
    compose tools upstream pre upstreamDigest = .ok s → P s patch

/-! ## Operations that are accepted, and others -/

variable {root root' operation other : Json.Object} {operations rest : List Json.Object}

theorem Admitted.not_changed (h : Admitted tools patch root operation) {current : Json} :
    ¬ Changed tools patch root operation current := by
  rintro ⟨hcurrent, hmismatch, hstatus⟩
  obtain ⟨current', mismatched, hcurrent', hmismatch', hrebased⟩ := h
  obtain rfl := Except.ok.inj (hcurrent.symm.trans hcurrent')
  obtain rfl := Except.ok.inj (hmismatch.symm.trans hmismatch')
  exact hstatus (hrebased rfl)

theorem not_accepts_of_refuses (h : Refuses tools upstreamDigest patch root operation) :
    ¬ Accepts tools upstreamDigest patch root operation := by
  rintro (⟨current, hchanged, hdrop⟩ | ⟨hadmitted, hdoable⟩)
  · cases h with
    | missing hnone => exact hnone current hchanged.1
    | changed hchanged' hnot =>
      obtain rfl := Except.ok.inj (hchanged.1.symm.trans hchanged'.1)
      exact hnot hdrop
    | unfit hadmitted _ _ => exact hadmitted.not_changed hchanged
  · cases h with
    | missing hnone =>
      obtain ⟨current, -, hcurrent, -⟩ := hadmitted
      exact hnone current hcurrent
    | changed hchanged _ => exact hadmitted.not_changed hchanged
    | unfit _ hnot _ => exact hnot hdoable

/-- Without a digest that has no encoding. -/
theorem Admitted.mismatch_ok (h : Admitted tools patch root operation) {current : Json}
    (hcurrent : currentValue tools root operation = .ok current) :
    mismatch tools operation current ≠ .error .unicodeError := by
  obtain ⟨current', mismatched, hcurrent', hmismatch, -⟩ := h
  obtain rfl := Except.ok.inj (hcurrent.symm.trans hcurrent')
  rw [hmismatch]
  exact fun h => by cases h

theorem not_doable_of_unhashable (h : Unhashable operation) : ¬ Doable root operation := by
  obtain ⟨value, hop, hbad⟩ := h
  rintro ⟨kind, path, ⟨target, hread, -⟩, -⟩
  rw [hop] at hread
  cases value <;> first | cases hread | simp [Json.arr?, Json.obj?] at hbad

theorem not_accepts_of_raises (h : Raises tools patch root operation) :
    ¬ Accepts tools upstreamDigest patch root operation := by
  rintro (⟨current, hchanged, -⟩ | ⟨hadmitted, hdoable⟩)
  · cases h with
    | digest hcurrent herror =>
      obtain rfl := Except.ok.inj (hchanged.1.symm.trans hcurrent)
      exact absurd (hchanged.2.1.symm.trans herror) (fun h => by cases h)
    | kind hadmitted _ => exact hadmitted.not_changed hchanged
  · cases h with
    | digest hcurrent herror => exact hadmitted.mismatch_ok hcurrent herror
    | kind _ hhash => exact not_doable_of_unhashable hhash hdoable

theorem not_refuses_of_raises (h : Raises tools patch root operation) :
    ¬ Refuses tools upstreamDigest patch root operation := by
  intro hrefuses
  cases h with
  | digest hcurrent herror =>
    cases hrefuses with
    | missing hnone => exact hnone _ hcurrent
    | changed hchanged _ =>
      obtain rfl := Except.ok.inj (hchanged.1.symm.trans hcurrent)
      exact absurd (hchanged.2.1.symm.trans herror) (fun h => by cases h)
    | unfit hadmitted _ _ => exact hadmitted.mismatch_ok hcurrent herror
  | kind hadmitted hhash =>
    cases hrefuses with
    | missing hnone =>
      obtain ⟨current, -, hcurrent, -⟩ := hadmitted
      exact hnone current hcurrent
    | changed hchanged _ => exact hadmitted.not_changed hchanged
    | unfit _ _ hnot => exact hnot hhash

/-- An operation that is accepted is done or dropped. -/
theorem composeOperation_of_accepts (h : Accepts tools upstreamDigest patch root operation) :
    composeOperation tools upstreamDigest patch root operation =
      (after tools upstreamDigest patch root operation, none) := by
  have houtcome := composeOperation_outcome tools upstreamDigest patch root operation
  unfold after
  generalize composeOperation tools upstreamDigest patch root operation = result at houtcome ⊢
  cases houtcome with
  | dropped _ => rfl
  | done _ _ _ _ => rfl
  | refused hr => exact absurd h (not_accepts_of_refuses hr)
  | raised _ hr => exact absurd h (not_accepts_of_raises hr)

/-- What is refused leaves the document as it is. -/
theorem composeOperation_of_refuses (h : Refuses tools upstreamDigest patch root operation) :
    ∃ code message, composeOperation tools upstreamDigest patch root operation =
      (root, some (.extension code message)) := by
  have houtcome := composeOperation_outcome tools upstreamDigest patch root operation
  generalize composeOperation tools upstreamDigest patch root operation = result at houtcome ⊢
  cases houtcome with
  | dropped hdropped => exact absurd (Or.inl hdropped) (not_accepts_of_refuses h)
  | done hadmitted hasks hfits _ =>
    exact absurd (Or.inr ⟨hadmitted, _, _, hasks, hfits⟩) (not_accepts_of_refuses h)
  | refused _ => exact ⟨_, _, rfl⟩
  | raised _ hr => exact absurd h (not_refuses_of_raises hr)

/-- What is accepted changes the value at its target, if anything. -/
theorem after_cases (h : Accepts tools upstreamDigest patch root operation) :
    after tools upstreamDigest patch root operation = root ∧
      Dropped tools upstreamDigest patch root operation ∨
    ∃ kind path, Admitted tools patch root operation ∧ Asks operation kind path ∧
      Fitting (valueOf operation) kind path (.obj root) ∧
      Performed (valueOf operation) kind path (.obj root)
        (.obj (after tools upstreamDigest patch root operation)) := by
  have houtcome := composeOperation_outcome tools upstreamDigest patch root operation
  rw [composeOperation_of_accepts h] at houtcome
  generalize after tools upstreamDigest patch root operation = root' at houtcome ⊢
  cases houtcome with
  | dropped hdropped => exact Or.inl ⟨rfl, hdropped⟩
  | done hadmitted hasks hfits hdone => exact Or.inr ⟨_, _, hadmitted, hasks, hfits, hdone⟩

/-- An idle operation is accepted, and changes nothing. -/
theorem Idle.after_eq (h : Idle tools upstreamDigest patch root operation) :
    Accepts tools upstreamDigest patch root operation ∧
      after tools upstreamDigest patch root operation = root := by
  have haccepts : Accepts tools upstreamDigest patch root operation :=
    h.imp_right fun ⟨hadmitted, kind, path, hasks, hopen, hchange⟩ =>
      ⟨hadmitted, kind, path, hasks, hopen, _, hchange⟩
  refine ⟨haccepts, ?_⟩
  rcases after_cases haccepts with ⟨hsame, -⟩ | ⟨kind, path, hadmitted, hasks, -, hdone⟩
  · exact hsame
  · rcases h with ⟨current, hchanged, -⟩ | ⟨-, kind', path', hasks', -, hchange⟩
    · exact absurd hchanged hadmitted.not_changed
    · obtain ⟨rfl, rfl⟩ := hasks.unique hasks'
      exact Json.obj.inj (hdone.same (hdone.change.eq hchange))

/-! ## The operations of a patch -/

theorem composeOperations_of_accepts (h : Accepts tools upstreamDigest patch root operation) :
    composeOperations tools upstreamDigest patch root (operation :: rest) =
      composeOperations tools upstreamDigest patch (after tools upstreamDigest patch root operation) rest := by
  rw [composeOperations, composeOperation_of_accepts h]

/-- Operations that fit are applied. -/
theorem composeOperations_of_fits : ∀ {operations : List Json.Object} {root : Json.Object},
    Fits tools upstreamDigest patch root operations →
    ∃ root', composeOperations tools upstreamDigest patch root operations = (root', .applied)
  | [], root, _ => ⟨root, rfl⟩
  | operation :: rest, root, ⟨haccepts, hrest⟩ => by
    obtain ⟨root', hrun⟩ := composeOperations_of_fits hrest
    exact ⟨root', (composeOperations_of_accepts haccepts).trans hrun⟩

/-- Idle operations, and one that is refused. -/
theorem composeOperations_of_idle : ∀ {before : List Json.Object},
    (∀ o ∈ before, Idle tools upstreamDigest patch root o) → Refuses tools upstreamDigest patch root operation →
    ∃ conflict, composeOperations tools upstreamDigest patch root (before ++ operation :: rest) =
      (root, .conflict conflict)
  | [], _, hrefuses => by
    obtain ⟨code, message, hrun⟩ := composeOperation_of_refuses hrefuses
    rw [List.nil_append, composeOperations, hrun]
    exact ⟨_, rfl⟩
  | o :: before, hidle, hrefuses => by
    obtain ⟨haccepts, hsame⟩ := (hidle o (List.mem_cons_self ..)).after_eq
    rw [List.cons_append, composeOperations_of_accepts haccepts, hsame]
    exact composeOperations_of_idle (fun o ho => hidle o (List.mem_cons_of_mem _ ho)) hrefuses

/-- How the operations of a patch go. -/
theorem composeOperations_cons {ending : Ending}
    (h : composeOperations tools upstreamDigest patch root (operation :: rest) = (root', ending)) :
    (Accepts tools upstreamDigest patch root operation ∧
      composeOperations tools upstreamDigest patch (after tools upstreamDigest patch root operation) rest =
        (root', ending)) ∨
    (Refuses tools upstreamDigest patch root operation ∧ root' = root ∧ ∃ conflict, ending = .conflict conflict) ∨
    (Raises tools patch root operation ∧ ∃ raised, ending = .raised raised) := by
  have houtcome := composeOperation_outcome tools upstreamDigest patch root operation
  rw [composeOperations] at h
  unfold after
  generalize composeOperation tools upstreamDigest patch root operation = result at houtcome h ⊢
  cases houtcome with
  | dropped hdropped => exact Or.inl ⟨Or.inl hdropped, h⟩
  | done hadmitted hasks hfits _ => exact Or.inl ⟨Or.inr ⟨hadmitted, _, _, hasks, hfits⟩, h⟩
  | refused hr =>
    obtain ⟨hroot, hending⟩ := Prod.mk.inj h
    exact Or.inr (Or.inl ⟨hr, hroot.symm, _, hending.symm⟩)
  | @raised raised hnot hr =>
    refine Or.inr (Or.inr ⟨hr, raised, ?_⟩)
    cases raised with
    | extension code message => exact absurd ⟨code, message, rfl⟩ hnot
    | _ => exact (Prod.mk.inj h).2.symm

/-- Operations that are applied fit. -/
theorem fits_of_applied : ∀ {operations : List Json.Object} {root : Json.Object},
    composeOperations tools upstreamDigest patch root operations = (root', .applied) →
    Fits tools upstreamDigest patch root operations
  | [], _, _ => trivial
  | operation :: rest, root, h => by
    rcases composeOperations_cons h with ⟨haccepts, hrest⟩ | ⟨-, -, conflict, hending⟩ | ⟨-, raised, hending⟩
    · exact ⟨haccepts, fits_of_applied hrest⟩
    · cases hending
    · cases hending

/-- A conflict is of an operation that is refused after others are applied. -/
theorem refused_of_conflict {conflict : Conflict} : ∀ {operations : List Json.Object} {root : Json.Object},
    composeOperations tools upstreamDigest patch root operations = (root', .conflict conflict) →
    ∃ before operation rest, operations = before ++ operation :: rest ∧
      composeOperations tools upstreamDigest patch root before = (root', .applied) ∧
      Refuses tools upstreamDigest patch root' operation
  | [], root, h => by cases h
  | operation :: rest, root, h => by
    rcases composeOperations_cons h with ⟨haccepts, hrest⟩ | ⟨hrefuses, rfl, -⟩ | ⟨-, raised, hending⟩
    · obtain ⟨before, refused, rest', hsplit, hrun, hrefuses⟩ := refused_of_conflict hrest
      refine ⟨operation :: before, refused, rest', by rw [hsplit]; rfl, ?_, hrefuses⟩
      rw [composeOperations_of_accepts haccepts, hrun]
    · exact ⟨[], operation, rest, rfl, rfl, hrefuses⟩
    · cases hending

/-! ## Targets that are apart -/

/-- What is accepted leaves other targets alone. -/
theorem at?_after (h : Accepts tools upstreamDigest patch root operation) {path : List Str}
    (hapart : Apart (pathOf tools operation) path) :
    at? path (.obj (after tools upstreamDigest patch root operation)) = at? path (.obj root) ∧
      (Open path (.obj (after tools upstreamDigest patch root operation)) ↔ Open path (.obj root)) := by
  rcases after_cases h with ⟨hsame, -⟩ | ⟨kind, path', -, hasks, -, hdone⟩
  · rw [hsame]
    exact ⟨rfl, Iff.rfl⟩
  · rw [hasks.path_eq tools] at hdone
    exact ⟨hdone.others path hapart, hdone.ways path hapart⟩

/-- So they are accepted as before. -/
theorem accepts_after_iff (h : Accepts tools upstreamDigest patch root operation)
    (hapart : Apart (pathOf tools operation) (pathOf tools other)) :
    Accepts tools upstreamDigest patch (after tools upstreamDigest patch root operation) other ↔
      Accepts tools upstreamDigest patch root other := by
  obtain ⟨hat, hopen⟩ := at?_after h hapart
  generalize after tools upstreamDigest patch root operation = root' at hat hopen ⊢
  have hcurrent : ∀ v, currentValue tools root' other = .ok v ↔ currentValue tools root other = .ok v := by
    intro v
    unfold currentValue
    split_ifs
    · exact Iff.rfl
    · rw [targetValue_iff, targetValue_iff]
      exact and_congr_right fun _ => by rw [← pathOf, hat]
  have hdoable : Doable root' other ↔ Doable root other := by
    refine exists_congr fun kind => exists_congr fun path => and_congr_right fun hasks => ?_
    rw [hasks.path_eq tools]
    refine ⟨fun hfits => ⟨hopen.mp hfits.way, ?_⟩, fun hfits => ⟨hopen.mpr hfits.way, ?_⟩⟩
    · rw [← hat]
      exact hfits.change
    · rw [hat]
      exact hfits.change
  have hadmitted : Admitted tools patch root' other ↔ Admitted tools patch root other :=
    exists_congr fun current => exists_congr fun mismatched => and_congr_left fun _ => hcurrent current
  have hdropped : Dropped tools upstreamDigest patch root' other ↔ Dropped tools upstreamDigest patch root other :=
    exists_congr fun current => and_congr_left fun _ => and_congr_left fun _ => hcurrent current
  exact or_congr hdropped (and_congr hadmitted hdoable)

/-- Operations on targets that are apart fit if the first document accepts each. -/
theorem fits_iff : ∀ {operations : List Json.Object} {root : Json.Object},
    operations.Pairwise (fun a b => Apart (pathOf tools a) (pathOf tools b)) →
    (Fits tools upstreamDigest patch root operations ↔
      ∀ o ∈ operations, Accepts tools upstreamDigest patch root o)
  | [], _, _ => iff_of_true trivial fun _ h => absurd h List.not_mem_nil
  | operation :: rest, root, hapart => by
    rw [List.pairwise_cons] at hapart
    rw [Fits, List.forall_mem_cons]
    refine and_congr_right fun haccepts => ?_
    rw [fits_iff hapart.2]
    exact forall_congr' fun o => forall_congr' fun ho => accepts_after_iff haccepts (hapart.1 o ho)

theorem at?_of_applied {path : List Str} : ∀ {operations : List Json.Object} {root : Json.Object},
    composeOperations tools upstreamDigest patch root operations = (root', .applied) →
    (∀ o ∈ operations, Apart (pathOf tools o) path) → at? path (.obj root') = at? path (.obj root)
  | [], root, h, _ => by
    obtain ⟨rfl, -⟩ := Prod.mk.inj h
    rfl
  | operation :: rest, root, h, hapart => by
    rcases composeOperations_cons h with ⟨haccepts, hrest⟩ | ⟨-, -, conflict, hending⟩ | ⟨-, raised, hending⟩
    · rw [at?_of_applied hrest fun o ho => hapart o (List.mem_cons_of_mem _ ho)]
      exact (at?_after haccepts (hapart operation (List.mem_cons_self ..))).1
    · cases hending
    · cases hending

/-- **Operations on targets that are apart, after which the document is as it was, are idle.** -/
theorem idle_of_unchanged : ∀ {operations : List Json.Object},
    operations.Pairwise (fun a b => Apart (pathOf tools a) (pathOf tools b)) →
    composeOperations tools upstreamDigest patch root operations = (root, .applied) →
    ∀ o ∈ operations, Idle tools upstreamDigest patch root o
  | [], _, _, _, h => absurd h List.not_mem_nil
  | operation :: rest, hapart, h, o, ho => by
    rw [List.pairwise_cons] at hapart
    rcases composeOperations_cons h with ⟨haccepts, hrest⟩ | ⟨-, -, conflict, hending⟩ | ⟨-, raised, hending⟩
    · have hsame : Idle tools upstreamDigest patch root operation := by
        rcases after_cases haccepts with ⟨-, hdropped⟩ | ⟨kind, path, hadmitted, hasks, hfits, hdone⟩
        · exact Or.inl hdropped
        · -- the later operations leave its target alone, and at the end it is what it was
          have hat := at?_of_applied hrest fun o ho => (hapart.1 o ho).symm
          rw [← hasks.path_eq tools] at hat
          refine Or.inr ⟨hadmitted, kind, path, hasks, hfits.way, ?_⟩
          have hchange := hdone.change
          rwa [← hat] at hchange
      rw [hsame.after_eq.2] at hrest
      rcases List.mem_cons.mp ho with rfl | ho
      · exact hsame
      · exact idle_of_unchanged hapart.2 hrest o ho
    · cases hending
    · cases hending

/-! ## Resources -/

/-- Resources that are there already. -/
theorem update_eq_self {current : Json.Object} : ∀ {new : Json.Object},
    (∀ member ∈ new, Json.lookup member.1 current = some member.2) → update current new = current
  | [], _ => rfl
  | member :: new, h => by
    rw [update, List.foldl_cons, Json.setMember_eq_self (h member (List.mem_cons_self ..))]
    exact update_eq_self fun m hm => h m (List.mem_cons_of_mem _ hm)

theorem lookup_update_of_notMem {key : Str} : ∀ {new current : Json.Object}, key ∉ Json.keys new →
    Json.lookup key (update current new) = Json.lookup key current
  | [], _, _ => rfl
  | member :: new, current, h => by
    rw [Json.keys, List.map_cons, List.mem_cons, not_or] at h
    rw [update, List.foldl_cons]
    exact (lookup_update_of_notMem h.2).trans (JsonText.lookup_setMember_of_ne (Ne.symm h.1) _ _)

theorem lookup_update_of_mem {member : Str × Json} : ∀ {new current : Json.Object}, (Json.keys new).Nodup →
    member ∈ new → Json.lookup member.1 (update current new) = some member.2
  | first :: new, current, hnodup, hmem => by
    rw [Json.keys, List.map_cons, List.nodup_cons] at hnodup
    rw [update, List.foldl_cons]
    rcases List.mem_cons.mp hmem with rfl | hmem
    · exact (lookup_update_of_notMem hnodup.1).trans (JsonText.lookup_setMember_self ..)
    · exact lookup_update_of_mem hnodup.2 hmem

/-! ## One patch -/

/-- A conflict names the patch. -/
theorem patchId_of_conflict {conflict : Conflict} {root' : Json.Object} :
    ∀ {root : Json.Object} {operations : List Json.Object},
      composeOperations tools upstreamDigest patch root operations = (root', .conflict conflict) →
      conflict.patchId = patch.id
  | root, [], h => by cases h
  | root, operation :: rest, h => by
    unfold composeOperations at h
    split at h
    · exact patchId_of_conflict h
    · obtain ⟨-, hconflict⟩ := Prod.mk.inj h
      rw [← Ending.conflict.inj hconflict]
    · cases h

/-- What a patch does, unless it raises. -/
inductive PatchStep (tools : Tools) (upstreamDigest : Str) (s : Composed) (patch : LocalPatch) :
    Composed → Prop
  | applied {root : Json.Object} :
      composeOperations tools upstreamDigest patch s.result patch.operations = (root, .applied) →
      PatchStep tools upstreamDigest s patch ⟨root, update s.resources patch.resources, s.conflicts⟩
  | conflict {root : Json.Object} {conflict : Conflict} : conflict.patchId = patch.id →
      composeOperations tools upstreamDigest patch s.result patch.operations =
        (root, .conflict conflict) →
      PatchStep tools upstreamDigest s patch
        ⟨root, update s.resources patch.resources, s.conflicts ++ [conflict]⟩

theorem patchStep_of_ok (h : composePatch tools upstreamDigest s patch = .ok s') :
    PatchStep tools upstreamDigest s patch s' := by
  unfold composePatch at h
  rcases hrun : composeOperations tools upstreamDigest patch s.result patch.operations with
    ⟨root, _ | conflict | raised⟩
  · rw [hrun] at h
    obtain rfl := Except.ok.inj h
    exact .applied hrun
  · rw [hrun] at h
    obtain rfl := Except.ok.inj h
    exact .conflict (patchId_of_conflict hrun) hrun
  · rw [hrun] at h
    cases h

/-! ## The patches in order -/

/-- The document and the resources. -/
def Composed.documents (s : Composed) : Json.Object × Json.Object := (s.result, s.resources)

theorem composeFrom_append :
    ∀ {pre : List LocalPatch} {s : Composed}, composeFrom tools upstreamDigest s (pre ++ post) =
      match composeFrom tools upstreamDigest s pre with
      | .ok s' => composeFrom tools upstreamDigest s' post
      | .error raised => .error raised
  | [], s => rfl
  | patch :: pre, s => by
    rw [List.cons_append, composeFrom, composeFrom]
    cases composePatch tools upstreamDigest s patch with
    | ok s' => exact composeFrom_append
    | error raised => rfl

/-- A composition that returns has returned after the patches before. -/
theorem composeFrom_append_ok (h : composeFrom tools upstreamDigest s (pre ++ post) = .ok s') :
    ∃ before, composeFrom tools upstreamDigest s pre = .ok before ∧
      composeFrom tools upstreamDigest before post = .ok s' := by
  rw [composeFrom_append] at h
  rcases hpre : composeFrom tools upstreamDigest s pre with raised | before
  · rw [hpre] at h
    cases h
  · rw [hpre] at h
    exact ⟨before, rfl, h⟩

theorem composeFrom_cons_ok (h : composeFrom tools upstreamDigest s (patch :: post) = .ok s') :
    ∃ after, composePatch tools upstreamDigest s patch = .ok after ∧
      composeFrom tools upstreamDigest after post = .ok s' := by
  rw [composeFrom] at h
  rcases hpatch : composePatch tools upstreamDigest s patch with raised | after
  · rw [hpatch] at h
    cases h
  · rw [hpatch] at h
    exact ⟨after, rfl, h⟩

theorem composeFrom_singleton :
    composeFrom tools upstreamDigest s [patch] = composePatch tools upstreamDigest s patch := by
  rw [composeFrom]
  cases composePatch tools upstreamDigest s patch with
  | ok s' => rfl
  | error raised => rfl

/-- The conflicts of the patches follow those there were. -/
theorem conflicts_composeFrom :
    ∀ {patches : List LocalPatch} {s s' : Composed},
      composeFrom tools upstreamDigest s patches = .ok s' →
      ∃ new, s'.conflicts = s.conflicts ++ new ∧
        ∀ id ∈ new.map Conflict.patchId, id ∈ patches.map LocalPatch.id
  | [], s, s', h => by
    obtain rfl := Except.ok.inj h
    exact ⟨[], (List.append_nil _).symm, by simp⟩
  | patch :: patches, s, s', h => by
    obtain ⟨after, hpatch, hrest⟩ := composeFrom_cons_ok h
    obtain ⟨new, hnew, hids⟩ := conflicts_composeFrom hrest
    cases patchStep_of_ok hpatch with
    | applied hrun =>
      exact ⟨new, hnew, fun id hid => List.mem_cons_of_mem _ (hids id hid)⟩
    | @conflict root conflict hid hrun =>
      refine ⟨conflict :: new, by rw [hnew, List.append_assoc]; rfl, fun id hmem => ?_⟩
      rw [List.map_cons, List.mem_cons] at hmem
      rcases hmem with rfl | hmem
      · exact hid ▸ List.mem_cons_self ..
      · exact List.mem_cons_of_mem _ (hids id hmem)

/-- A patch listed changes nothing. -/
def Nothing (tools : Tools) (upstreamDigest : Str) (s : Composed) (patches : List LocalPatch)
    (out : Composed) : Prop :=
  ∀ pre patch post, patches = pre ++ patch :: post → patch.id ∈ out.conflicts.map Conflict.patchId →
    ∃ before after, composeFrom tools upstreamDigest s pre = .ok before ∧
      composeFrom tools upstreamDigest s (pre ++ [patch]) = .ok after ∧
      after.result = before.result ∧ after.resources = before.resources

theorem composeFrom_cons_of_ok {rest : List LocalPatch}
    (h : composePatch tools upstreamDigest s patch = .ok s') :
    composeFrom tools upstreamDigest s (patch :: rest) = composeFrom tools upstreamDigest s' rest := by
  rw [composeFrom, h]

theorem Nothing.cons {out : Composed} (hpatch : composePatch tools upstreamDigest s patch = .ok s')
    (hfirst : patch.id ∈ out.conflicts.map Conflict.patchId →
      s'.result = s.result ∧ s'.resources = s.resources)
    (h : Nothing tools upstreamDigest s' patches out) :
    Nothing tools upstreamDigest s (patch :: patches) out := by
  rintro (_ | ⟨first, pre⟩) p post hsplit hlisted
  · obtain ⟨rfl, -⟩ := List.cons.inj hsplit
    exact ⟨s, s', rfl, composeFrom_singleton.trans hpatch, hfirst hlisted⟩
  · obtain ⟨rfl, htail⟩ := List.cons.inj hsplit
    obtain ⟨before, after, hbefore, hafter, hsame⟩ := h pre p post htail hlisted
    refine ⟨before, after, ?_, ?_, hsame⟩
    · rw [composeFrom_cons_of_ok hpatch, hbefore]
    · rw [List.cons_append, composeFrom_cons_of_ok hpatch, hafter]

theorem kept_cons_of_mem {conflicts : List Conflict} (h : patch.id ∈ conflicts.map Conflict.patchId) :
    kept (patch :: patches) conflicts = kept patches conflicts :=
  List.filter_cons_of_neg (by simpa using h)

theorem kept_cons_of_notMem {conflicts : List Conflict}
    (h : patch.id ∉ conflicts.map Conflict.patchId) :
    kept (patch :: patches) conflicts = patch :: kept patches conflicts :=
  List.filter_cons_of_pos (by simpa using h)

/-- Patches that fit or are refused at once are applied whole or not at all, if each has an id of its own. -/
theorem whole_of_sound :
    ∀ {patches : List LocalPatch} {s : Composed}, (patches.map LocalPatch.id).Nodup →
      (∀ patch ∈ patches, patch.id ∉ s.conflicts.map Conflict.patchId) →
      (∀ pre patch post s', patches = pre ++ patch :: post → composeFrom tools upstreamDigest s pre = .ok s' →
        Fits tools upstreamDigest patch s'.result patch.operations ∨ AtOnce tools upstreamDigest s' patch) →
      ∃ out, composeFrom tools upstreamDigest s patches = .ok out ∧
        applyAll tools upstreamDigest s.documents (kept patches out.conflicts) =
          some out.documents ∧ Nothing tools upstreamDigest s patches out
  | [], s, _, _, _ => by
    refine ⟨s, rfl, rfl, fun pre patch post hsplit _ => ?_⟩
    exact absurd hsplit.symm (by simp)
  | patch :: patches, s, hnodup, hfresh, hsound => by
    rw [List.map_cons, List.nodup_cons] at hnodup
    have hlater : ∀ {s₁ : Composed}, composePatch tools upstreamDigest s patch = .ok s₁ →
        ∀ pre p post s', patches = pre ++ p :: post → composeFrom tools upstreamDigest s₁ pre = .ok s' →
        Fits tools upstreamDigest p s'.result p.operations ∨ AtOnce tools upstreamDigest s' p := by
      intro s₁ hpatch pre p post s' hsplit hrun
      refine hsound (patch :: pre) p post s' (by rw [hsplit]; rfl) ?_
      rw [composeFrom_cons_of_ok hpatch, hrun]
    rcases hsound [] patch patches s rfl rfl with hfits | ⟨⟨before, operation, rest, hops, hidle, hrefuses⟩, hres⟩
    · obtain ⟨root, hrun⟩ := composeOperations_of_fits hfits
      have hpatch : composePatch tools upstreamDigest s patch =
          .ok ⟨root, update s.resources patch.resources, s.conflicts⟩ := by
        rw [composePatch, hrun]
      obtain ⟨out, hout, happlied, hnothing⟩ := whole_of_sound
        (s := ⟨root, update s.resources patch.resources, s.conflicts⟩) hnodup.2
        (fun p hp => hfresh p (List.mem_cons_of_mem _ hp)) (hlater hpatch)
      -- The conflicts are those of the start and of later patches.
      have hnot : patch.id ∉ out.conflicts.map Conflict.patchId := by
        obtain ⟨new, hnew, hids⟩ := conflicts_composeFrom hout
        rw [hnew, List.map_append, List.mem_append]
        rintro (hmem | hmem)
        · exact hfresh patch (List.mem_cons_self ..) hmem
        · exact hnodup.1 (hids _ hmem)
      refine ⟨out, (composeFrom_cons_of_ok hpatch).trans hout, ?_,
        .cons hpatch (fun hlisted => absurd hlisted hnot) hnothing⟩
      rw [kept_cons_of_notMem hnot, Composed.documents, applyAll, hrun]
      exact happlied
    · obtain ⟨conflict, hrun⟩ : ∃ conflict, composeOperations tools upstreamDigest patch s.result
          (before ++ operation :: rest) = (s.result, .conflict conflict) := composeOperations_of_idle hidle hrefuses
      rw [← hops] at hrun
      have hresources : update s.resources patch.resources = s.resources := update_eq_self hres
      have hid := patchId_of_conflict hrun
      have hpatch : composePatch tools upstreamDigest s patch =
          .ok ⟨s.result, update s.resources patch.resources, s.conflicts ++ [conflict]⟩ := by
        rw [composePatch, hrun]
      have hfresh' : ∀ p ∈ patches, p.id ∉ (s.conflicts ++ [conflict]).map Conflict.patchId := by
        intro p hp hmem
        rw [List.map_append, List.mem_append] at hmem
        rcases hmem with hmem | hmem
        · exact hfresh p (List.mem_cons_of_mem _ hp) hmem
        · have heq : p.id = patch.id := (List.mem_singleton.mp hmem).trans hid
          exact hnodup.1 (heq ▸ List.mem_map_of_mem hp)
      obtain ⟨out, hout, happlied, hnothing⟩ := whole_of_sound
        (s := ⟨s.result, update s.resources patch.resources, s.conflicts ++ [conflict]⟩) hnodup.2
        hfresh' (hlater hpatch)
      have hlisted : patch.id ∈ out.conflicts.map Conflict.patchId := by
        obtain ⟨new, hnew, -⟩ := conflicts_composeFrom hout
        rw [hnew, ← hid]
        simp
      refine ⟨out, (composeFrom_cons_of_ok hpatch).trans hout, ?_,
        .cons hpatch (fun _ => ⟨rfl, hresources⟩) hnothing⟩
      rw [kept_cons_of_mem hlisted, Composed.documents, ← hresources]
      exact happlied

/-- In a composition that is whole, a patch with targets that are apart has all its operations accepted
by the document before it, or is refused at once. -/
theorem sound_of_whole {upstream : Json.Object} {out : Composed}
    (h : Whole tools upstream patches upstreamDigest out) (hsplit : patches = pre ++ patch :: post)
    (hbefore : compose tools upstream pre upstreamDigest = .ok s) (hseparate : Separate tools patch) :
    (∀ o ∈ patch.operations, Accepts tools upstreamDigest patch s.result o) ∨
      AtOnce tools upstreamDigest s patch := by
  obtain ⟨before, hpre, hrest⟩ : ∃ before, composeFrom tools upstreamDigest ⟨upstream, [], []⟩ pre = .ok before ∧
      composeFrom tools upstreamDigest before (patch :: post) = .ok out :=
    composeFrom_append_ok (hsplit ▸ h.returns)
  obtain rfl := Except.ok.inj (hbefore.symm.trans hpre)
  obtain ⟨s', hpatch, hpost⟩ := composeFrom_cons_ok hrest
  cases patchStep_of_ok hpatch with
  | applied hrun => exact Or.inl ((fits_iff hseparate.targets).mp (fits_of_applied hrun))
  | @conflict root conflict hid hrun =>
    have hlisted : patch.id ∈ out.conflicts.map Conflict.patchId := by
      obtain ⟨new, hnew, -⟩ := conflicts_composeFrom hpost
      rw [hnew, ← hid]
      simp
    obtain ⟨s₀, s₁, hs₀, hs₁, hresult, hresources⟩ := h.nothing pre patch post hsplit hlisted
    obtain rfl := Except.ok.inj (hbefore.symm.trans hs₀)
    have hthen : compose tools upstream (pre ++ [patch]) upstreamDigest =
        composePatch tools upstreamDigest s patch := by
      rw [compose, composeFrom_append, hpre]
      exact composeFrom_singleton
    obtain rfl := Except.ok.inj (hs₁.symm.trans (hthen.trans hpatch))
    dsimp only at hresult hresources
    subst hresult
    obtain ⟨before, operation, rest, hops, happlied, hrefuses⟩ := refused_of_conflict hrun
    refine Or.inr ⟨⟨before, operation, rest, hops, ?_, hrefuses⟩, fun member hmem => ?_⟩
    · exact idle_of_unchanged (hseparate.targets.sublist (hops ▸ List.sublist_append_left ..)) happlied
    · rw [← hresources]
      exact lookup_update_of_mem hseparate.resources hmem

/-- **Patches with ids of their own are applied whole or not at all if each patch fits the document
before it, or is refused by that document at once.  Where the targets of each patch are apart, it is
needed, too, and a patch fits if the document before it accepts each of its operations.** -/
theorem whole_iff_sound (tools : Tools) (upstream : Json.Object) (patches : List LocalPatch)
    (upstreamDigest : Str) (hnodup : (patches.map LocalPatch.id).Nodup) :
    (AtEach tools upstream patches upstreamDigest (fun s patch =>
        Fits tools upstreamDigest patch s.result patch.operations ∨ AtOnce tools upstreamDigest s patch) →
      ∃ out, Whole tools upstream patches upstreamDigest out) ∧
    ((∀ patch ∈ patches, Separate tools patch) →
      ((∃ out, Whole tools upstream patches upstreamDigest out) ↔
        AtEach tools upstream patches upstreamDigest fun s patch =>
          (∀ o ∈ patch.operations, Accepts tools upstreamDigest patch s.result o) ∨
            AtOnce tools upstreamDigest s patch)) := by
  have hwhole : AtEach tools upstream patches upstreamDigest (fun s patch =>
      Fits tools upstreamDigest patch s.result patch.operations ∨ AtOnce tools upstreamDigest s patch) →
      ∃ out, Whole tools upstream patches upstreamDigest out := by
    intro hsound
    obtain ⟨out, hreturns, happlied, hnothing⟩ :=
      whole_of_sound (s := ⟨upstream, [], []⟩) hnodup (fun _ _ => by simp) hsound
    exact ⟨out, hreturns, happlied, hnothing⟩
  refine ⟨hwhole, fun hseparate => ⟨?_, fun hsound => hwhole fun pre patch post s hsplit hrun => ?_⟩⟩
  · rintro ⟨out, h⟩ pre patch post s hsplit hrun
    exact sound_of_whole h hsplit hrun (hseparate patch (hsplit ▸ by simp))
  · have hpatch : Separate tools patch := hseparate patch (hsplit ▸ by simp)
    exact (hsound pre patch post s hsplit hrun).imp_left (fits_iff hpatch.targets).mpr

/-! ## A patch refused halfway -/

def plainTools : Tools where
  floats := ⟨fun _ => [], fun _ => .nan⟩
  sha256 := id
  text := fun _ => []

/-- `{"a": 1}`. -/
def smallDocument : Json.Object := [(str "a", .int 1)]

/-- A patch that replaces `a`, and then `b`. -/
def halfwayPatch : LocalPatch where
  id := str "p"
  baseDigest := []
  rebasePolicy := .strict
  operations :=
    [[(str "op", .str (str "replace")), (str "target", .str (str "a")), (str "value", .int 2)],
      [(str "op", .str (str "replace")), (str "target", .str (str "b")), (str "value", .int 3)]]
  resources := []
  status := .clean

/-- The first value stays replaced when the second is found missing. -/
theorem compose_not_whole : ¬ ∃ out, Whole plainTools smallDocument [halfwayPatch] [] out := by
  rintro ⟨out, hreturns, -, hnothing⟩
  have hout : compose plainTools smallDocument [halfwayPatch] [] =
      .ok ⟨[(str "a", .int 2)], [],
        [⟨str "p", str "b", "patch_target_missing", str "Patch target missing: b", "strict"⟩]⟩ := rfl
  obtain rfl := Except.ok.inj (hreturns.symm.trans hout)
  obtain ⟨before, after, hbefore, hafter, hresult, -⟩ :=
    hnothing [] halfwayPatch [] rfl (List.mem_cons_self ..)
  obtain rfl : Composed.mk smallDocument [] [] = before := Except.ok.inj hbefore
  obtain rfl := Except.ok.inj (hafter.symm.trans hout)
  cases hresult

/-- A patch that replaces `a` and adds `c.d`. -/
def fittingPatch : LocalPatch where
  id := str "q"
  baseDigest := []
  rebasePolicy := .strict
  operations :=
    [[(str "op", .str (str "replace")), (str "target", .str (str "a")), (str "value", .int 2)],
      [(str "op", .str (str "add")), (str "target", .str (str "c.d")), (str "value", .int 4)]]
  resources := [(str "r", .int 1)]
  status := .clean

/-- With the fitting patch first, the other finds `a` replaced already when it misses `b`. -/
theorem whole_iff_sound_fitting :
    ∃ out, Whole plainTools smallDocument [fittingPatch, halfwayPatch] [] out := by
  have hids : ([fittingPatch, halfwayPatch].map LocalPatch.id).Nodup := by decide
  refine (whole_iff_sound plainTools smallDocument [fittingPatch, halfwayPatch] [] hids).1 ?_
  rintro (_ | ⟨first, _ | ⟨second, pre⟩⟩) patch post s hsplit hrun
  · obtain ⟨rfl, -⟩ := List.cons.inj hsplit
    obtain rfl := Except.ok.inj hrun
    refine Or.inl ⟨Or.inr ⟨⟨.int 1, false, rfl, rfl, fun h => by cases h⟩, .replace, [str "a"],
      ⟨str "a", rfl, by decide, rfl⟩, fun _ _ => trivial, _, .replace _⟩, ?_⟩
    refine ⟨Or.inr ⟨⟨.null, false, rfl, rfl, fun h => by cases h⟩, .add, [str "c", str "d"],
      ⟨str "c.d", rfl, by decide, rfl⟩, Json.open_of_lookup_none rfl, _, .add _⟩, trivial⟩
  · obtain ⟨rfl, htail⟩ := List.cons.inj hsplit
    obtain ⟨rfl, -⟩ := List.cons.inj htail
    obtain rfl := Except.ok.inj hrun
    refine Or.inr ⟨⟨[_], _, [], rfl, fun o ho => ?_, .missing fun current h => ?_⟩, fun _ h => absurd h List.not_mem_nil⟩
    · rw [List.mem_singleton.mp ho]
      exact Or.inr ⟨⟨.int 2, false, rfl, rfl, fun h => by cases h⟩, .replace, [str "a"],
        ⟨str "a", rfl, by decide, rfl⟩, fun _ _ => trivial, .replace _⟩
    · cases h
  · exact absurd (congrArg List.length hsplit) (by simp)

end AI2Apps.Extensions
