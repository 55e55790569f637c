import AI2Apps.Extensions.Patching
import AI2Apps.Lib.JsonPaths

/-!
# What an operation does

An operation of a patch on a document, in terms of the value at its target: done, dropped, refused,
or ended by an exception of the language.  A refused operation has done nothing: the objects that
`add` makes on its way are made only where nothing is in its way any more.

* `Change`, `Fitting`: what a kind of operation makes of the value at its target, and when it can.
* `Performed`, `applyOperation_cases`: the value at the target is changed, and no other.
* `Accepts`, `Refuses`, `Raises`, `composeOperation_outcome`: the operation with its precondition.
-/

namespace AI2Apps.Extensions

open Json (at? Open Apart)

/-! ## The value at the target -/

/-- What becomes of the value at the target. -/
inductive Change (value : Json) : OperationKind → Option Json → Option Json → Prop
  | merge {current new : Json.Object} : value = .obj new →
      Change value .merge (some (.obj current)) (some (.obj (update current new)))
  | replace (old : Json) : Change value .replace (some old) (some value)
  | extend {current new : List Json} : value = .arr new →
      Change value .extend (some (.arr current)) (some (.arr (current ++ new)))
  | remove (old : Json) : Change value .remove (some old) none
  | add (old? : Option Json) : Change value .add old? (some value)

/-- The kind of operation can be done at the path. -/
structure Fitting (value : Json) (kind : OperationKind) (path : List Str) (v : Json) : Prop where
  way : Open path v
  change : ∃ changed, Change value kind (at? path v) changed

/-- It was done there, and nowhere else. -/
structure Performed (value : Json) (kind : OperationKind) (path : List Str) (v v' : Json) : Prop where
  change : Change value kind (at? path v) (at? path v')
  others : ∀ other, Apart path other → at? other v' = at? other v
  ways : ∀ other, Apart path other → (Open other v' ↔ Open other v)
  same : at? path v' = at? path v → v' = v

/-- A refusal. -/
def Refusal (raised : Raised) : Prop := ∃ code message, raised = .extension code message

variable {value : Json} {kind : OperationKind} {target key : Str} {o : Json.Object}

theorem Change.eq {before after after' : Option Json} (h : Change value kind before after)
    (h' : Change value kind before after') : after = after' := by
  cases h with
  | merge hnew =>
    cases h' with
    | merge hnew' => rw [Json.obj.inj (hnew.symm.trans hnew')]
  | extend hnew =>
    cases h' with
    | extend hnew' => rw [Json.arr.inj (hnew.symm.trans hnew')]
  | _ =>
    cases h'
    rfl

/-- What is done at a parent that is an object. -/
theorem perform_cases (target : Str) (kind : OperationKind) (value : Json) (o : Json.Object) (key : Str) :
    (∃ o', perform target kind value (.obj o) key = (.obj o', none) ∧
      Change value kind (Json.lookup key o) (Json.lookup key o') ∧
      (∀ k, key ≠ k → Json.lookup k o' = Json.lookup k o) ∧
      (Json.lookup key o' = Json.lookup key o → o' = o)) ∨
    (∃ raised, perform target kind value (.obj o) key = (.obj o, some raised) ∧ Refusal raised ∧
      ∀ changed, ¬ Change value kind (Json.lookup key o) changed) := by
  -- a member that is set
  have hset : ∀ {v}, perform target kind value (.obj o) key = (.obj (JsonText.setMember key v o), none) →
      Change value kind (Json.lookup key o) (some v) →
      ∃ o', perform target kind value (.obj o) key = (.obj o', none) ∧
        Change value kind (Json.lookup key o) (Json.lookup key o') ∧
        (∀ k, key ≠ k → Json.lookup k o' = Json.lookup k o) ∧
        (Json.lookup key o' = Json.lookup key o → o' = o) := by
    intro v hrun hchange
    refine ⟨_, hrun, ?_, fun k hk => JsonText.lookup_setMember_of_ne hk v o, fun hsame => ?_⟩
    · rwa [JsonText.lookup_setMember_self]
    · rw [JsonText.lookup_setMember_self] at hsame
      exact Json.setMember_eq_self hsame.symm
  cases kind with
  | remove =>
    rcases hold : Json.lookup key o with _ | old
    · refine Or.inr ⟨targetMissing target, by simp only [perform, hold], ⟨_, _, rfl⟩, fun changed h => ?_⟩
      cases h
    · have hgone : Json.lookup key (o.filter fun member => member.1 ≠ key) = none := by
        rw [Json.lookup_filter_ne, if_pos rfl]
      refine Or.inl ⟨o.filter fun member => member.1 ≠ key, by simp only [perform, hold], ?_, fun k hk => ?_,
        fun hsame => ?_⟩
      · rw [hgone]
        exact .remove old
      · rw [Json.lookup_filter_ne, if_neg hk.symm]
      · rw [hgone] at hsame
        cases hsame
  | replace =>
    rcases hold : Json.lookup key o with _ | old
    · refine Or.inr ⟨targetMissing target, by simp only [perform, hold], ⟨_, _, rfl⟩, fun changed h => ?_⟩
      cases h
    · rw [← hold]
      refine Or.inl (hset (v := value) (by simp only [perform, hold]) ?_)
      rw [hold]
      exact .replace old
  | add => exact Or.inl (hset rfl (.add _))
  | merge =>
    by_cases hfits : ∃ current new, Json.lookup key o = some (.obj current) ∧ value = .obj new
    · obtain ⟨current, new, hold, rfl⟩ := hfits
      refine Or.inl (hset (v := .obj (update current new)) (by simp only [perform, hold]) ?_)
      rw [hold]
      exact .merge rfl
    · refine Or.inr ⟨.extension "patch_target_kind_changed" (str "Merge target changed kind: " ++ target), ?_,
        ⟨_, _, rfl⟩, fun changed h => ?_⟩
      · unfold perform
        dsimp only
        split
        · rename_i current new hold
          exact absurd ⟨current, new, hold, rfl⟩ hfits
        · rfl
      · generalize hold : Json.lookup key o = old at h
        cases h with
        | merge hnew => exact hfits ⟨_, _, hold, hnew⟩
  | extend =>
    by_cases hfits : ∃ current new, Json.lookup key o = some (.arr current) ∧ value = .arr new
    · obtain ⟨current, new, hold, rfl⟩ := hfits
      refine Or.inl (hset (v := .arr (current ++ new)) (by simp only [perform, hold]) ?_)
      rw [hold]
      exact .extend rfl
    · refine Or.inr ⟨.extension "patch_target_kind_changed" (str "Extend target changed kind: " ++ target), ?_,
        ⟨_, _, rfl⟩, fun changed h => ?_⟩
      · unfold perform
        dsimp only
        split
        · rename_i current new hold
          exact absurd ⟨current, new, hold, rfl⟩ hfits
        · rfl
      · generalize hold : Json.lookup key o = old at h
        cases h with
        | extend hnew => exact hfits ⟨_, _, hold, hnew⟩

/-- What is below a member, done there. -/
theorem Performed.below {part : Str} {rest : List Str} {w w' : Json} {o o' : Json.Object}
    (h : Performed value kind rest w w') (hold : at? (part :: rest) (.obj o) = at? rest w)
    (hnew : Json.lookup part o' = some w') (hothers : ∀ k, part ≠ k → Json.lookup k o' = Json.lookup k o)
    (hother : ∀ other, Apart rest other → at? (part :: other) (.obj o) = at? other w)
    (hway : ∀ other, Apart rest other → (Open (part :: other) (.obj o) ↔ Open other w))
    (hsame : w' = w → o' = o) : Performed value kind (part :: rest) (.obj o) (.obj o') where
  change := by
    rw [hold, Json.at?_of_lookup hnew]
    exact h.change
  others other hapart := by
    obtain ⟨key, other, rfl⟩ := hapart.exists_cons
    by_cases hkey : part = key
    · subst hkey
      rw [Json.at?_of_lookup hnew, h.others other hapart.tail, hother other hapart.tail]
    · exact Json.at?_congr (hothers key hkey)
  ways other hapart := by
    obtain ⟨key, other, rfl⟩ := hapart.exists_cons
    by_cases hkey : part = key
    · subst hkey
      rw [Json.open_of_lookup hnew, h.ways other hapart.tail, hway other hapart.tail]
    · exact Json.open_congr (hothers key hkey)
  same hunchanged := by
    rw [hold, Json.at?_of_lookup hnew] at hunchanged
    rw [hsame (h.same hunchanged)]

/-- **At a path a kind of operation is done where it fits, and nowhere else, and refused, with nothing
done, where it does not.** -/
theorem atParent_cases (target : Str) (kind : OperationKind) (value : Json) : ∀ (rest : List Str) (part : Str) (v : Json),
    (∃ o', atParent target (kind = .add) (perform target kind value) part rest v = (.obj o', none) ∧
      Fitting value kind (part :: rest) v ∧ Performed value kind (part :: rest) v (.obj o')) ∨
    (∃ raised, atParent target (kind = .add) (perform target kind value) part rest v = (v, some raised) ∧
      Refusal raised ∧ ¬ Fitting value kind (part :: rest) v)
  | [], part, .obj o => by
    rcases perform_cases target kind value o part with ⟨o', hrun, hchange, hothers, hsame⟩ | ⟨raised, hrun, hr, hnone⟩
    · refine Or.inl ⟨o', hrun, ⟨fun _ _ => trivial, Json.lookup part o', ?_⟩, ?_, fun other hapart => ?_,
        fun other hapart => ?_, ?_⟩
      · rw [Json.at?_singleton]
        exact hchange
      · rw [Json.at?_singleton, Json.at?_singleton]
        exact hchange
      · obtain ⟨key, other, rfl⟩ := hapart.exists_cons
        exact Json.at?_congr (hothers key hapart.ne_of_singleton)
      · obtain ⟨key, other, rfl⟩ := hapart.exists_cons
        exact Json.open_congr (hothers key hapart.ne_of_singleton)
      · rw [Json.at?_singleton, Json.at?_singleton]
        exact fun h => congrArg Json.obj (hsame h)
    · refine Or.inr ⟨raised, hrun, hr, fun hfits => ?_⟩
      obtain ⟨changed, hchange⟩ := hfits.change
      rw [Json.at?_singleton] at hchange
      exact hnone changed hchange
  | next :: rest, part, .obj o => by
    rcases hold : Json.lookup part o with _ | w
    · have hat : at? (part :: next :: rest) (.obj o) = none := Json.at?_of_lookup_none hold
      by_cases hadd : kind = .add
      · -- the objects on the way are made, and nothing is in the way below them
        subst hadd
        have hrun : ∀ {w' : Json} {raised : Option Raised},
            atParent target true (perform target .add value) next rest (.obj []) = (w', raised) →
            atParent target true (perform target .add value) part (next :: rest) (.obj o) =
              (.obj (JsonText.setMember part w' o), raised) := by
          intro w' raised hbelow
          rw [atParent, hold]
          dsimp only
          rw [if_pos rfl, hbelow]
        have hfits : Fitting value .add (next :: rest) (.obj []) := ⟨Json.open_empty _, _, .add _⟩
        rcases atParent_cases target .add value rest next (.obj []) with ⟨o', hbelow, -, hdone⟩ | ⟨_, _, _, hnot⟩
        · refine Or.inl ⟨_, hrun hbelow, ⟨Json.open_of_lookup_none hold, _, .add _⟩, ?_⟩
          refine hdone.below ?_ (JsonText.lookup_setMember_self ..)
            (fun k hk => JsonText.lookup_setMember_of_ne hk _ o) (fun other hapart => ?_) (fun other hapart => ?_) ?_
          · rw [hat, Json.at?_empty]
          · obtain ⟨key, other, rfl⟩ := hapart.exists_cons
            rw [Json.at?_of_lookup_none hold, Json.at?_empty]
          · obtain ⟨key, other, rfl⟩ := hapart.exists_cons
            exact iff_of_true (Json.open_of_lookup_none hold) (Json.open_empty _)
          · -- something was put below the empty object
            intro hempty
            have hchange := hdone.change
            rw [hempty, Json.at?_empty] at hchange
            cases hchange
        · exact absurd hfits hnot
      · refine Or.inr ⟨targetMissing target, ?_, ⟨_, _, rfl⟩, fun hfits => ?_⟩
        · rw [atParent, hold]
          dsimp only
          rw [if_neg (by simpa using hadd)]
        · obtain ⟨changed, hchange⟩ := hfits.change
          rw [hat] at hchange
          cases hchange
          exact hadd rfl
    · have hrun : ∀ {w' : Json} {raised : Option Raised},
          atParent target (kind = .add) (perform target kind value) next rest w = (w', raised) →
          atParent target (kind = .add) (perform target kind value) part (next :: rest) (.obj o) =
            (.obj (JsonText.setMember part w' o), raised) := by
        intro w' raised hbelow
        rw [atParent, hold]
        dsimp only
        rw [hbelow]
      rcases atParent_cases target kind value rest next w with ⟨o', hbelow, hfits, hdone⟩ | ⟨raised, hbelow, hr, hnot⟩
      · refine Or.inl ⟨_, hrun hbelow, ⟨(Json.open_of_lookup hold).mpr hfits.way, ?_⟩, ?_⟩
        · rw [Json.at?_of_lookup hold]
          exact hfits.change
        · exact hdone.below (Json.at?_of_lookup hold) (JsonText.lookup_setMember_self ..)
            (fun k hk => JsonText.lookup_setMember_of_ne hk _ o) (fun _ _ => Json.at?_of_lookup hold)
            (fun _ _ => Json.open_of_lookup hold) fun hsame => Json.setMember_eq_self (hsame ▸ hold)
      · refine Or.inr ⟨raised, ?_, hr, fun hfits => hnot ⟨(Json.open_of_lookup hold).mp hfits.way, ?_⟩⟩
        · rw [hrun hbelow, Json.setMember_eq_self hold]
        · rw [← Json.at?_of_lookup hold]
          exact hfits.change
  | rest, part, .null | rest, part, .bool _ | rest, part, .int _ | rest, part, .float _ | rest, part, .str _
  | rest, part, .arr _ => by
    refine Or.inr ?_
    cases rest with
    | nil => exact ⟨targetNotObject target, rfl, ⟨_, _, rfl⟩, fun hfits => hfits.way⟩
    | cons next rest => exact ⟨targetKindChanged target, rfl, ⟨_, _, rfl⟩, fun hfits => hfits.way⟩

/-! ## One operation -/

/-- The value of an operation. -/
def valueOf (operation : Json.Object) : Json := (Json.lookup (str "value") operation).getD .null

/-- What an operation asks for: its kind, and where. -/
def Asks (operation : Json.Object) (kind : OperationKind) (path : List Str) : Prop :=
  ∃ target, OperationKind.read (Json.lookup (str "target") operation)
      ((Json.lookup (str "op") operation).getD .null) = .ok (kind, target) ∧
    target ≠ [] ∧ path = target.splitOn 46

/-- The document lets it be done. -/
def Doable (root operation : Json.Object) : Prop :=
  ∃ kind path, Asks operation kind path ∧ Fitting (valueOf operation) kind path (.obj root)

/-- The value looked up in the set of kinds is a list or an object. -/
def Unhashable (operation : Json.Object) : Prop :=
  ∃ kind, Json.lookup (str "op") operation = some kind ∧ (kind.arr?.isSome ∨ kind.obj?.isSome)

variable {root operation : Json.Object} {path : List Str}

theorem Asks.unique {kind' : OperationKind} {path' : List Str} (h : Asks operation kind path)
    (h' : Asks operation kind' path') : kind = kind' ∧ path = path' := by
  obtain ⟨target, hread, -, rfl⟩ := h
  obtain ⟨target', hread', -, rfl⟩ := h'
  obtain ⟨rfl, rfl⟩ := Prod.mk.inj (Except.ok.inj (hread.symm.trans hread'))
  exact ⟨rfl, rfl⟩

/-- How an operation is not read. -/
theorem raised_of_read {raised : Raised} (h : OperationKind.read (Json.lookup (str "target") operation)
    ((Json.lookup (str "op") operation).getD .null) = .error raised) :
    Refusal raised ∧ ¬ Unhashable operation ∨ ¬ Refusal raised ∧ Unhashable operation := by
  have hplain : ∀ {kind : Json}, Json.lookup (str "op") operation = some kind → kind.arr? = none →
      kind.obj? = none → ¬ Unhashable operation := by
    rintro kind hop harr hobj ⟨kind', hop', hbad⟩
    obtain rfl := Option.some.inj (hop.symm.trans hop')
    rcases hbad with hbad | hbad
    · rw [harr] at hbad
      cases hbad
    · rw [hobj] at hbad
      cases hbad
  have htype : raised = .typeError → ¬ Refusal raised := by
    rintro rfl ⟨code, message, hraised⟩
    cases hraised
  rcases hop : Json.lookup (str "op") operation with _ | kind
  · rw [hop] at h
    refine Or.inl ⟨⟨_, _, (Except.error.inj h).symm⟩, ?_⟩
    rintro ⟨kind, hkind, -⟩
    rw [hop] at hkind
    cases hkind
  · rw [hop] at h
    cases kind with
    | arr items => exact Or.inr ⟨htype (Except.error.inj h).symm, _, hop, .inl rfl⟩
    | obj members => exact Or.inr ⟨htype (Except.error.inj h).symm, _, hop, .inr rfl⟩
    | _ =>
      dsimp only [Option.getD, OperationKind.read] at h
      split at h
      · cases h
      · exact Or.inl ⟨⟨_, _, (Except.error.inj h).symm⟩, hplain hop rfl rfl⟩

/-- **An operation is done where the document lets it be, and otherwise nothing is done.** -/
theorem applyOperation_cases (root operation : Json.Object) :
    (∃ kind path root', applyOperation root operation = (root', none) ∧ Asks operation kind path ∧
      Fitting (valueOf operation) kind path (.obj root) ∧
      Performed (valueOf operation) kind path (.obj root) (.obj root')) ∨
    (∃ raised, applyOperation root operation = (root, some raised) ∧ ¬ Doable root operation ∧
      (Refusal raised ∧ ¬ Unhashable operation ∨ ¬ Refusal raised ∧ Unhashable operation)) := by
  unfold applyOperation
  rcases hread : OperationKind.read (Json.lookup (str "target") operation)
      ((Json.lookup (str "op") operation).getD .null) with raised | ⟨kind, target⟩
  · refine Or.inr ⟨raised, rfl, ?_, raised_of_read hread⟩
    rintro ⟨kind, path, ⟨target, hread', -⟩, -⟩
    rw [hread] at hread'
    cases hread'
  · have hhashable : ¬ Unhashable operation := by
      rintro ⟨value, hop, hbad⟩
      rw [hop] at hread
      cases value <;> first | cases hread | simp [Json.arr?, Json.obj?] at hbad
    dsimp only
    by_cases hempty : target = []
    · rw [if_pos hempty]
      refine Or.inr ⟨_, rfl, ?_, Or.inl ⟨⟨_, _, rfl⟩, hhashable⟩⟩
      rintro ⟨kind', path, ⟨target', hread', hne, -⟩, -⟩
      obtain ⟨-, rfl⟩ := Prod.mk.inj (Except.ok.inj (hread.symm.trans hread'))
      exact hne hempty
    · rw [if_neg hempty]
      have hasks : Asks operation kind (target.splitOn 46) := ⟨target, hread, hempty, rfl⟩
      rcases hsplit : target.splitOn 46 with _ | ⟨part, rest⟩
      · exact absurd hsplit (List.splitOn_ne_nil 46 target)
      · rw [hsplit] at hasks
        dsimp only
        rcases atParent_cases target kind (valueOf operation) rest part (.obj root) with
          ⟨o', hrun, hfits, hdone⟩ | ⟨raised, hrun, hr, hnot⟩
        · refine Or.inl ⟨kind, part :: rest, o', ?_, hasks, hfits, hdone⟩
          rw [valueOf] at hrun
          rw [hrun]
        · refine Or.inr ⟨raised, ?_, ?_, Or.inl ⟨hr, hhashable⟩⟩
          · rw [valueOf] at hrun
            rw [hrun]
          · rintro ⟨kind', path', hasks', hfits⟩
            obtain ⟨rfl, rfl⟩ := hasks.unique hasks'
            exact hnot hfits

/-! ## The precondition -/

/-- The path of a target. -/
def pathOf (tools : Tools) (operation : Json.Object) : List Str := (targetText tools operation).splitOn 46

variable {tools : Tools} {upstreamDigest : Str} {patch : LocalPatch}

theorem Asks.path_eq (tools : Tools) (h : Asks operation kind path) : path = pathOf tools operation := by
  obtain ⟨target, hread, -, rfl⟩ := h
  have htarget : Json.lookup (str "target") operation = some (.str target) := by
    generalize (Json.lookup (str "op") operation).getD .null = op at hread
    cases op with
    | arr items => cases hread
    | obj members => cases hread
    | _ =>
      dsimp only [OperationKind.read] at hread
      split at hread
      · rename_i htarget
        obtain ⟨-, rfl⟩ := Prod.mk.inj (Except.ok.inj hread)
        exact htarget
      · cases hread
  rw [pathOf, targetText, htarget]

theorem valueAt_iff (target : Str) : ∀ (rest : List Str) (part : Str) (v w : Json),
    valueAt target part rest v = .ok w ↔ at? (part :: rest) v = some w
  | [], part, .obj o, w => by
    rw [Json.at?_singleton, valueAt]
    cases Json.lookup part o <;> simp
  | next :: rest, part, .obj o, w => by
    rw [Json.at?_cons, valueAt]
    cases Json.lookup part o with
    | none => simp
    | some v => exact valueAt_iff target rest next v w
  | [], _, .null, _ | [], _, .bool _, _ | [], _, .int _, _ | [], _, .float _, _ | [], _, .str _, _
  | [], _, .arr _, _ => by simp [valueAt, at?]
  | _ :: _, _, .null, _ | _ :: _, _, .bool _, _ | _ :: _, _, .int _, _ | _ :: _, _, .float _, _
  | _ :: _, _, .str _, _ | _ :: _, _, .arr _, _ => by simp [valueAt, at?]

/-- `target_value` is the value at the path. -/
theorem targetValue_iff {target : Str} {v : Json} :
    targetValue root target = .ok v ↔ target ≠ [] ∧ at? (target.splitOn 46) (.obj root) = some v := by
  unfold targetValue
  by_cases hempty : target = []
  · rw [if_pos hempty]
    exact iff_of_false (fun h => by cases h) fun h => h.1 hempty
  · rw [if_neg hempty]
    rcases hsplit : target.splitOn 46 with _ | ⟨part, rest⟩
    · exact absurd hsplit (List.splitOn_ne_nil 46 target)
    · exact (valueAt_iff target rest part (.obj root) v).trans (iff_and_self.mpr fun _ => hempty)

theorem refusal_of_valueAt {target part : Str} {rest : List Str} {v : Json} {raised : Raised}
    (h : valueAt target part rest v = .error raised) : Refusal raised := by
  fun_induction valueAt target part rest v with
  | case1 => cases h
  | case4 part next rest o w hlookup ih => exact ih h
  | _ =>
    obtain rfl := Except.error.inj h
    exact ⟨_, _, rfl⟩

theorem refusal_of_currentValue {raised : Raised} (h : currentValue tools root operation = .error raised) :
    Refusal raised := by
  unfold currentValue targetValue at h
  split_ifs at h
  · obtain rfl := Except.error.inj h
    exact ⟨_, _, rfl⟩
  · split at h
    · exact refusal_of_valueAt h
    · obtain rfl := Except.error.inj h
      exact ⟨_, _, rfl⟩

/-- The value at the target is the expected one, or the patch is rebased. -/
def Admitted (tools : Tools) (patch : LocalPatch) (root operation : Json.Object) : Prop :=
  ∃ current mismatched, currentValue tools root operation = .ok current ∧
    mismatch tools operation current = .ok mismatched ∧ (mismatched = true → patch.status = .rebased)

/-- The value at the target is not the expected one, of a patch that is not rebased. -/
def Changed (tools : Tools) (patch : LocalPatch) (root operation : Json.Object) (current : Json) : Prop :=
  currentValue tools root operation = .ok current ∧ mismatch tools operation current = .ok true ∧
    patch.status ≠ .rebased

/-- An operation that is satisfied already can be dropped. -/
def Droppable (upstreamDigest : Str) (patch : LocalPatch) (operation : Json.Object) (current : Json) : Prop :=
  patch.baseDigest ≠ upstreamDigest ∧ patch.rebasePolicy = .dropIfSatisfied ∧
    current.pyEq (valueOf operation) = true

/-- The operation is satisfied already, and dropped. -/
def Dropped (tools : Tools) (upstreamDigest : Str) (patch : LocalPatch) (root operation : Json.Object) : Prop :=
  ∃ current, Changed tools patch root operation current ∧ Droppable upstreamDigest patch operation current

/-- The document takes the operation. -/
def Accepts (tools : Tools) (upstreamDigest : Str) (patch : LocalPatch) (root operation : Json.Object) : Prop :=
  Dropped tools upstreamDigest patch root operation ∨ Admitted tools patch root operation ∧ Doable root operation

/-- The document refuses the operation. -/
inductive Refuses (tools : Tools) (upstreamDigest : Str) (patch : LocalPatch) (root operation : Json.Object) : Prop
  /-- There is nothing at its target. -/
  | missing : (∀ current, currentValue tools root operation ≠ .ok current) →
      Refuses tools upstreamDigest patch root operation
  /-- There is something else than it expects. -/
  | changed {current : Json} : Changed tools patch root operation current →
      ¬ Droppable upstreamDigest patch operation current → Refuses tools upstreamDigest patch root operation
  /-- It cannot be done there. -/
  | unfit : Admitted tools patch root operation → ¬ Doable root operation → ¬ Unhashable operation →
      Refuses tools upstreamDigest patch root operation

/-- What ends a composition: the kind of operation is a list or an object, or the value whose digest
is compared has no encoding. -/
inductive Raises (tools : Tools) (patch : LocalPatch) (root operation : Json.Object) : Prop
  | digest {current : Json} : currentValue tools root operation = .ok current →
      mismatch tools operation current = .error .unicodeError → Raises tools patch root operation
  | kind : Admitted tools patch root operation → Unhashable operation → Raises tools patch root operation

/-- What becomes of an operation. -/
inductive Outcome (tools : Tools) (upstreamDigest : Str) (patch : LocalPatch) (root operation : Json.Object) :
    Json.Object × Option Raised → Prop
  | dropped : Dropped tools upstreamDigest patch root operation →
      Outcome tools upstreamDigest patch root operation (root, none)
  | done {kind : OperationKind} {path : List Str} {root' : Json.Object} : Admitted tools patch root operation →
      Asks operation kind path → Fitting (valueOf operation) kind path (.obj root) →
      Performed (valueOf operation) kind path (.obj root) (.obj root') →
      Outcome tools upstreamDigest patch root operation (root', none)
  | refused {code : String} {message : Str} : Refuses tools upstreamDigest patch root operation →
      Outcome tools upstreamDigest patch root operation (root, some (.extension code message))
  | raised {raised : Raised} : ¬ Refusal raised → Raises tools patch root operation →
      Outcome tools upstreamDigest patch root operation (root, some raised)

theorem mismatch_raises {current : Json} {raised : Raised} (h : mismatch tools operation current = .error raised) :
    raised = .unicodeError := by
  unfold mismatch at h
  dsimp only at h
  split_ifs at h
  rcases hdigest : canonicalDigest tools current with e | digest
  · rw [hdigest] at h
    unfold canonicalDigest at hdigest
    split at hdigest
    · cases hdigest
    · exact (Except.error.inj h).symm.trans (Except.error.inj hdigest).symm
  · rw [hdigest] at h
    cases h

/-- **What becomes of an operation with its precondition.** -/
theorem composeOperation_outcome (tools : Tools) (upstreamDigest : Str) (patch : LocalPatch)
    (root operation : Json.Object) : Outcome tools upstreamDigest patch root operation
      (composeOperation tools upstreamDigest patch root operation) := by
  unfold composeOperation
  rcases hcurrent : currentValue tools root operation with raised | current
  · obtain ⟨code, message, rfl⟩ := refusal_of_currentValue hcurrent
    refine .refused (.missing fun current h => ?_)
    rw [hcurrent] at h
    cases h
  · dsimp only
    rcases hmismatch : mismatch tools operation current with raised | mismatched
    · obtain rfl := mismatch_raises hmismatch
      refine .raised ?_ (.digest hcurrent hmismatch)
      rintro ⟨code, message, h⟩
      cases h
    · dsimp only
      by_cases hchanged : mismatched = true ∧ patch.status ≠ .rebased
      · obtain ⟨rfl, hstatus⟩ := hchanged
        rw [if_pos ⟨rfl, hstatus⟩]
        split_ifs with hdrop
        · exact .dropped ⟨current, ⟨hcurrent, hmismatch, hstatus⟩, hdrop⟩
        · exact .refused (.changed ⟨hcurrent, hmismatch, hstatus⟩ hdrop)
      · rw [if_neg hchanged]
        have hadmitted : Admitted tools patch root operation := by
          refine ⟨current, mismatched, hcurrent, hmismatch, fun htrue => ?_⟩
          by_contra hstatus
          exact hchanged ⟨htrue, hstatus⟩
        rcases applyOperation_cases root operation with ⟨kind, path, root', hrun, hasks, hfits, hdone⟩ |
          ⟨raised, hrun, hnot, ⟨⟨code, message, rfl⟩, hhash⟩ | ⟨hr, hhash⟩⟩
        · rw [hrun]
          exact .done hadmitted hasks hfits hdone
        · rw [hrun]
          exact .refused (.unfit hadmitted hnot hhash)
        · rw [hrun]
          exact .raised hr (.kind hadmitted hhash)

end AI2Apps.Extensions
