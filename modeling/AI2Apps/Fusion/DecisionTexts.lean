import AI2Apps.Fusion.Decisions

/-!
# Which decision is read from a text

An answer that is one JSON object is read as that object.  With prose around the object every brace
is tried, and the objects that are found are the object and the objects in it, up to objects that the
protocols refuse.  So the decision is the one that was meant unless an object in it is itself a
decision.

* `lastSettled`: what the last of several objects gives that is not refused.
* `Strays`: the objects on which a conversion fails otherwise than by a `ValueError`.
* `payload_within`: thinking, prose and fences are taken away.
* `decision_texts`: which decision is read, and when the reading fails otherwise.
-/

namespace AI2Apps.Fusion

open JsonText TextOrder

variable {b : Builtins} {p : Protocol}

/-! ## Candidates -/

/-- What an object gives when it is not refused with a `ValueError`. -/
def settled (b : Builtins) (p : Protocol) (o : Json.Object) : Option (Except Raised Decision) :=
  match p.convert b o with
  | .error (.valueError _) => none
  | r => some r

/-- What the last of the objects gives that is not refused. -/
def lastSettled (b : Builtins) (p : Protocol) (os : List Json.Object) : Option (Except Raised Decision) :=
  os.reverse.findSome? (settled b p)

variable {o : Json.Object} {j x s : Str} {base : Option Str} {floats : FloatText}

theorem actionOf_of_no_action {α : Type} {ofText : Str → Option α} (h : Json.lookup (str "action") o = none) :
    actionOf b ofText o = none := by
  rw [actionOf, h]
  rfl

/-- An object without action is refused. -/
theorem settled_of_no_action (h : keyed (str "action") o = false) :
    settled b p o = none := by
  rw [keyed, Option.isSome_eq_false_iff, Option.isNone_iff_eq_none] at h
  cases p with
  | review base =>
    rw [settled, Protocol.convert, reviewDecisionFromMapping, actionOf_of_no_action h]
    rfl
  | checkpoint =>
    rw [settled, Protocol.convert, checkpointDecisionFromMapping, actionOf_of_no_action h]
    rfl
  | toolReview =>
    rw [settled, Protocol.convert, toolReviewDecisionFromMapping, actionOf_of_no_action h]
    rfl

theorem findSome?_filter_of_none {α β : Type} {f : α → Option β} {keep : α → Bool}
    (h : ∀ a, keep a = false → f a = none) : ∀ l : List α, (l.filter keep).findSome? f = l.findSome? f
  | [] => rfl
  | a :: l => by
    cases hkeep : keep a with
    | false =>
      rw [List.filter_cons_of_neg (by simp [hkeep]), List.findSome?_cons, h a hkeep,
        findSome?_filter_of_none h l]
    | true =>
      rw [List.filter_cons_of_pos hkeep, List.findSome?_cons, List.findSome?_cons,
        findSome?_filter_of_none h l]

/-- Only the objects with an action matter. -/
theorem lastSettled_filter (os : List Json.Object) :
    lastSettled b p (os.filter (keyed (str "action"))) = lastSettled b p os := by
  rw [lastSettled, lastSettled, ← List.filter_reverse]
  exact findSome?_filter_of_none (fun o => settled_of_no_action) _

theorem selectCandidate_eq : ∀ (complaint : Str) (os : List Json.Object),
    (∃ text, os.findSome? (settled b p) = none ∧
      selectCandidate b p complaint os = .error (.valueError text)) ∨
    os.findSome? (settled b p) = some (selectCandidate b p complaint os)
  | complaint, [] => .inl ⟨complaint, rfl, rfl⟩
  | complaint, o :: os => by
    rw [selectCandidate, List.findSome?_cons]
    cases hconvert : p.convert b o with
    | ok d => exact .inr (by rw [settled, hconvert])
    | error e =>
      cases e with
      | valueError text =>
        rw [settled, hconvert]
        exact selectCandidate_eq text os
      | typeError text => exact .inr (by rw [settled, hconvert])
      | overflowError text => exact .inr (by rw [settled, hconvert])

/-! ## Conversions that fail otherwise -/

/-- A number that `float` does not take. -/
def strayNumber : Option Json → Bool
  | some (.arr _) | some (.obj _) => true
  | some (.int i) => floatLimit ≤ i.natAbs
  | _ => false

/-- A patch with an infinite number of occurrences. -/
def StrayPatch (b : Builtins) : Json → Prop
  | .obj raw =>
    (PatchOperation.ofText (b.lower (b.str (getOr raw "operation" (.str (str "replace")))))).isSome ∧
      (getOr raw "expected_occurrences" (.int 1) = .float .posInf ∨
        getOr raw "expected_occurrences" (.int 1) = .float .negInf)
  | _ => False

/-- `isinstance(value, Mapping)`. -/
def IsObject (v : Json) : Prop :=
  ∃ o, v = .obj o

/-- The objects on which a conversion fails otherwise than by a `ValueError`: it is a decision up to
an infinite number of occurrences or a confidence that is no number. -/
def Strays (b : Builtins) : Protocol → Json.Object → Prop
  | .review base, o =>
    (actionOf b ReviewAction.ofText o).isSome ∧ ∃ raws, getTruthy o "patches" (.arr []) = .arr raws ∧
      ((∃ before raw after, raws = before ++ raw :: after ∧
          (∀ r ∈ before, ∃ patch, patchFromMapping b base r = .ok patch) ∧ StrayPatch b raw) ∨
        ((∀ r ∈ raws, ∃ patch, patchFromMapping b base r = .ok patch) ∧
          IsObject (getTruthy o "blueprint" (.obj [])) ∧ IsObject (getTruthy o "metadata" (.obj [])) ∧
          strayNumber (Json.lookup (str "confidence") o) = true))
  | .checkpoint, o =>
    (actionOf b CheckpointAction.ofText o).isSome ∧ IsObject (getTruthy o "metadata" (.obj [])) ∧
      strayNumber (Json.lookup (str "confidence") o) = true
  | .toolReview, o =>
    (actionOf b ToolReviewAction.ofText o).isSome ∧
      strayNumber (Json.lookup (str "confidence") o) = true

/-- The result is an exception other than `ValueError`. -/
def Foreign {α : Type} (r : Except Raised α) : Prop :=
  ∃ e, r = .error e ∧ ¬ e.IsValueError

theorem not_foreign_ok {α : Type} (a : α) : ¬ Foreign (.ok a : Except Raised α) := by
  rintro ⟨e, h, -⟩
  cases h

theorem not_foreign_valueError {α : Type} (t : Str) :
    ¬ Foreign (.error (.valueError t) : Except Raised α) := by
  rintro ⟨e, h, he⟩
  cases h
  exact he trivial

theorem not_foreign_checked {α : Type} (fault : α → Option Str) (a : α) :
    ¬ Foreign (checked fault a) := by
  rw [checked]
  split
  · exact not_foreign_ok a
  · exact not_foreign_valueError _

theorem foreign_map {α β : Type} {f : α → β} {r : Except Raised α} :
    Foreign (r.map f) ↔ Foreign r := by
  cases r with
  | ok a => exact ⟨fun h => absurd h (not_foreign_ok _), fun h => absurd h (not_foreign_ok _)⟩
  | error e => exact ⟨fun ⟨e', h, he⟩ => ⟨e', by cases h; rfl, he⟩, fun ⟨e', h, he⟩ => ⟨e', by cases h; rfl, he⟩⟩

theorem foreign_bind_error {α β : Type} {e : Raised} {f : α → Except Raised β} :
    Foreign ((.error e : Except Raised α) >>= f) ↔ Foreign (.error e : Except Raised α) :=
  ⟨fun ⟨_, h, he⟩ => ⟨e, rfl, by cases h; exact he⟩, fun ⟨_, h, he⟩ => ⟨e, rfl, by cases h; exact he⟩⟩

/-- What comes after does not fail otherwise. -/
theorem foreign_bind {α β : Type} {r : Except Raised α} {f : α → Except Raised β}
    (h : ∀ a, ¬ Foreign (f a)) : Foreign (r >>= f) ↔ Foreign r := by
  cases r with
  | error e => exact foreign_bind_error
  | ok a => exact ⟨fun hf => absurd hf (h a), fun hf => absurd hf (not_foreign_ok a)⟩

theorem not_foreign_bind {α β : Type} {r : Except Raised α} {f : α → Except Raised β}
    (hr : ¬ Foreign r) (h : ∀ a, ¬ Foreign (f a)) : ¬ Foreign (r >>= f) :=
  fun hf => hr ((foreign_bind h).mp hf)

theorem foreign_confidence :
    Foreign (confidence b o) ↔ strayNumber (Json.lookup (str "confidence") o) = true := by
  rw [confidence]
  rcases Json.lookup (str "confidence") o with _ | v
  · exact ⟨fun h => absurd h (not_foreign_ok _), fun h => by cases h⟩
  · cases v with
    | null => exact ⟨fun h => absurd h (not_foreign_ok _), fun h => by cases h⟩
    | bool v => exact ⟨fun h => absurd h (not_foreign_ok _), fun h => by cases h⟩
    | int i =>
      simp only [foreign_map, Builtins.float, strayNumber, decide_eq_true_eq]
      split_ifs with hlimit
      · exact ⟨fun _ => hlimit, fun _ => ⟨_, rfl, id⟩⟩
      · exact ⟨fun h => absurd h (not_foreign_ok _), fun h => absurd h hlimit⟩
    | float f => exact ⟨fun h => absurd h (not_foreign_ok _), fun h => by cases h⟩
    | str s =>
      simp only [foreign_map, Builtins.float, strayNumber]
      split
      · exact ⟨fun h => absurd h (not_foreign_ok _), fun h => by cases h⟩
      · exact ⟨fun h => absurd h (not_foreign_valueError _), fun h => by cases h⟩
    | arr items => exact ⟨fun _ => rfl, fun _ => ⟨_, rfl, id⟩⟩
    | obj o => exact ⟨fun _ => rfl, fun _ => ⟨_, rfl, id⟩⟩

theorem not_foreign_asTupleStrings (o : Json.Object) (field : String) :
    ¬ Foreign (asTupleStrings o field) := by
  rw [asTupleStrings]
  split
  · exact not_foreign_ok _
  · exact not_foreign_ok _
  · split
    · exact not_foreign_ok _
    · exact not_foreign_valueError _
  · exact not_foreign_valueError _

/-! ## Patches -/

/-- Of `int` only the infinite numbers pass the `except` around a patch. -/
theorem foreign_int {v : Json} :
    Foreign ((b.int v).mapError Raised.ofPatch) ↔ v = .float .posInf ∨ v = .float .negInf := by
  have hnot : ∀ {r : Except Raised ℤ}, ¬ Foreign r → v ≠ .float .posInf → v ≠ .float .negInf →
      (Foreign r ↔ v = .float .posInf ∨ v = .float .negInf) := fun hr h h' =>
    ⟨fun hf => absurd hf hr, fun hv => hv.elim (fun hv => absurd hv h) fun hv => absurd hv h'⟩
  cases v with
  | null => exact hnot (not_foreign_valueError _) nofun nofun
  | bool v => exact hnot (not_foreign_ok _) nofun nofun
  | int i => exact hnot (not_foreign_ok _) nofun nofun
  | float f =>
    cases f with
    | finite q => exact hnot (not_foreign_ok _) nofun nofun
    | posInf => exact ⟨fun _ => .inl rfl, fun _ => ⟨_, rfl, id⟩⟩
    | negInf => exact ⟨fun _ => .inr rfl, fun _ => ⟨_, rfl, id⟩⟩
    | nan => exact hnot (not_foreign_valueError _) nofun nofun
  | str s =>
    refine hnot ?_ nofun nofun
    rw [Builtins.int]
    split
    · exact not_foreign_ok _
    · exact not_foreign_valueError _
  | arr items => exact hnot (not_foreign_valueError _) nofun nofun
  | obj o => exact hnot (not_foreign_valueError _) nofun nofun

theorem mapError_bind {α β : Type} (r : Except Raised α) (f : α → Except Raised β) :
    (r >>= f).mapError Raised.ofPatch =
      r.mapError Raised.ofPatch >>= fun a => (f a).mapError Raised.ofPatch := by
  cases r <;> rfl

theorem foreign_patchFromMapping {v : Json} :
    Foreign (patchFromMapping b base v) ↔ StrayPatch b v := by
  cases v with
  | obj raw =>
    rw [patchFromMapping, StrayPatch]
    cases PatchOperation.ofText (b.lower (b.str (getOr raw "operation" (.str (str "replace"))))) with
    | none => exact ⟨fun h => absurd h (not_foreign_valueError _), fun h => by cases h.1⟩
    | some operation =>
      dsimp only
      rw [mapError_bind, foreign_bind, foreign_int]
      · exact ⟨fun h => ⟨rfl, h⟩, fun h => h.2⟩
      · intro expected
        rw [checked]
        split
        · exact not_foreign_ok _
        · exact not_foreign_valueError _
  | null => exact ⟨fun h => absurd h (not_foreign_valueError _), fun h => h.elim⟩
  | bool v => exact ⟨fun h => absurd h (not_foreign_valueError _), fun h => h.elim⟩
  | int i => exact ⟨fun h => absurd h (not_foreign_valueError _), fun h => h.elim⟩
  | float f => exact ⟨fun h => absurd h (not_foreign_valueError _), fun h => h.elim⟩
  | str s => exact ⟨fun h => absurd h (not_foreign_valueError _), fun h => h.elim⟩
  | arr items => exact ⟨fun h => absurd h (not_foreign_valueError _), fun h => h.elim⟩

/-- The first patch that fails decides. -/
theorem foreign_patchesFrom {raws : List Json} :
    Foreign (patchesFrom b base raws) ↔ ∃ before raw after, raws = before ++ raw :: after ∧
      (∀ r ∈ before, ∃ patch, patchFromMapping b base r = .ok patch) ∧ StrayPatch b raw := by
  induction raws with
  | nil =>
    exact ⟨fun h => absurd h (not_foreign_ok _), fun ⟨before, _, _, h, _⟩ => absurd h (by simp)⟩
  | cons raw raws ih =>
    rw [patchesFrom]
    cases hpatch : patchFromMapping b base raw with
    | error e =>
      rw [foreign_bind_error, ← hpatch, foreign_patchFromMapping]
      constructor
      · exact fun h => ⟨[], raw, raws, rfl, by simp, h⟩
      · rintro ⟨before, r, after, h, hall, hstray⟩
        cases before with
        | nil =>
          obtain ⟨rfl, -⟩ := List.cons.inj h
          exact hstray
        | cons r' before =>
          obtain ⟨rfl, -⟩ := List.cons.inj h
          obtain ⟨patch, hok⟩ := hall raw (List.mem_cons_self ..)
          rw [hpatch] at hok
          cases hok
    | ok patch =>
      have hrest : Foreign (do
          let patch ← (Except.ok patch : Except Raised StructuredPatch)
          let patches ← patchesFrom b base raws
          return patch :: patches) ↔ Foreign (patchesFrom b base raws) :=
        foreign_bind fun patches => not_foreign_ok _
      rw [hrest, ih]
      constructor
      · rintro ⟨before, r, after, rfl, hall, hstray⟩
        exact ⟨raw :: before, r, after, rfl, List.forall_mem_cons.mpr ⟨⟨patch, hpatch⟩, hall⟩, hstray⟩
      · rintro ⟨before, r, after, h, hall, hstray⟩
        cases before with
        | nil =>
          obtain ⟨rfl, -⟩ := List.cons.inj h
          obtain ⟨e, he, -⟩ := foreign_patchFromMapping.mpr hstray
          rw [hpatch] at he
          cases he
        | cons r' before =>
          obtain ⟨rfl, rfl⟩ := List.cons.inj h
          exact ⟨before, r, after, rfl, (List.forall_mem_cons.mp hall).2, hstray⟩

theorem patchesFrom_ok {raws : List Json} :
    (∃ patches, patchesFrom b base raws = .ok patches) ↔
      ∀ r ∈ raws, ∃ patch, patchFromMapping b base r = .ok patch := by
  induction raws with
  | nil => exact ⟨fun _ => by simp, fun _ => ⟨[], rfl⟩⟩
  | cons raw raws ih =>
    rw [List.forall_mem_cons, ← ih, patchesFrom]
    cases patchFromMapping b base raw with
    | error e => exact ⟨nofun, nofun⟩
    | ok patch =>
      cases patchesFrom b base raws with
      | error e => exact ⟨nofun, nofun⟩
      | ok patches => exact ⟨fun _ => ⟨⟨patch, rfl⟩, patches, rfl⟩, fun _ => ⟨patch :: patches, rfl⟩⟩

/-! ## Objects -/

theorem foreign_toolReview :
    Foreign (toolReviewDecisionFromMapping b o) ↔ Strays b .toolReview o := by
  rw [toolReviewDecisionFromMapping, Strays]
  cases actionOf b ToolReviewAction.ofText o with
  | none => exact ⟨fun h => absurd h (not_foreign_valueError _), fun h => by cases h.1⟩
  | some action =>
    dsimp only
    rw [foreign_bind fun confidence => not_foreign_bind (not_foreign_asTupleStrings o _)
      fun guidance => not_foreign_checked _ _, foreign_confidence]
    exact ⟨fun h => ⟨rfl, h⟩, fun h => h.2⟩

theorem foreign_checkpoint :
    Foreign (checkpointDecisionFromMapping b o) ↔ Strays b .checkpoint o := by
  rw [checkpointDecisionFromMapping, Strays]
  cases actionOf b CheckpointAction.ofText o with
  | none => exact ⟨fun h => absurd h (not_foreign_valueError _), fun h => by cases h.1⟩
  | some action =>
    dsimp only
    split
    · next metadata hmetadata =>
      rw [foreign_bind fun confidence => not_foreign_bind (not_foreign_asTupleStrings o _)
        fun guidance => not_foreign_bind (not_foreign_asTupleStrings o _)
        fun constraints => not_foreign_checked _ _, foreign_confidence]
      exact ⟨fun h => ⟨rfl, ⟨metadata, hmetadata⟩, h⟩, fun h => h.2.2⟩
    · next hmetadata =>
      refine ⟨fun h => absurd h (not_foreign_valueError _), ?_⟩
      rintro ⟨-, ⟨metadata, h⟩, -⟩
      exact absurd h (hmetadata metadata)

theorem foreign_review :
    Foreign (reviewDecisionFromMapping b base o) ↔ Strays b (.review base) o := by
  rw [reviewDecisionFromMapping, Strays]
  cases actionOf b ReviewAction.ofText o with
  | none => exact ⟨fun h => absurd h (not_foreign_valueError _), fun h => by cases h.1⟩
  | some action =>
    dsimp only
    split
    · next raws hraws =>
      cases hpatches : patchesFrom b base raws with
      | error e =>
        rw [foreign_bind_error, ← hpatches, foreign_patchesFrom]
        constructor
        · exact fun h => ⟨rfl, raws, hraws, .inl h⟩
        · rintro ⟨-, raws', hraws', h | ⟨hall, -⟩⟩
          · rw [hraws, Json.arr.injEq] at hraws'
            rw [hraws']
            exact h
          · rw [hraws, Json.arr.injEq] at hraws'
            obtain ⟨patches, hok⟩ := patchesFrom_ok.mpr hall
            rw [← hraws', hpatches] at hok
            cases hok
      | ok patches =>
        have hall := patchesFrom_ok.mp ⟨patches, hpatches⟩
        have hnone : ¬ ∃ before raw after, raws = before ++ raw :: after ∧
            (∀ r ∈ before, ∃ patch, patchFromMapping b base r = .ok patch) ∧ StrayPatch b raw := by
          rw [← foreign_patchesFrom, hpatches]
          exact not_foreign_ok _
        have hstrays : ((some action).isSome = true ∧ ∃ raws', getTruthy o "patches" (.arr []) = .arr raws' ∧
            ((∃ before raw after, raws' = before ++ raw :: after ∧
              (∀ r ∈ before, ∃ patch, patchFromMapping b base r = .ok patch) ∧ StrayPatch b raw) ∨
            ((∀ r ∈ raws', ∃ patch, patchFromMapping b base r = .ok patch) ∧
              IsObject (getTruthy o "blueprint" (.obj [])) ∧
              IsObject (getTruthy o "metadata" (.obj [])) ∧
              strayNumber (Json.lookup (str "confidence") o) = true))) ↔
            IsObject (getTruthy o "blueprint" (.obj [])) ∧
              IsObject (getTruthy o "metadata" (.obj [])) ∧
              strayNumber (Json.lookup (str "confidence") o) = true := by
          constructor
          · rintro ⟨-, raws', hraws', h⟩
            rw [hraws, Json.arr.injEq] at hraws'
            subst hraws'
            exact (h.resolve_left hnone).2
          · exact fun h => ⟨rfl, raws, hraws, .inr ⟨hall, h⟩⟩
        rw [hstrays]
        show Foreign (match getTruthy o "blueprint" (.obj []) with | .obj blueprint => _ | _ => _) ↔ _
        split
        · next blueprint hblueprint =>
          split
          · next metadata hmetadata =>
            rw [foreign_bind fun confidence => not_foreign_bind (not_foreign_asTupleStrings o _)
              fun instructions => not_foreign_checked _ _, foreign_confidence]
            exact ⟨fun h => ⟨⟨blueprint, hblueprint⟩, ⟨metadata, hmetadata⟩, h⟩, fun h => h.2.2⟩
          · next hmetadata =>
            refine ⟨fun h => absurd h (not_foreign_valueError _), ?_⟩
            rintro ⟨-, ⟨metadata, h⟩, -⟩
            exact absurd h (hmetadata metadata)
        · next hblueprint =>
          refine ⟨fun h => absurd h (not_foreign_valueError _), ?_⟩
          rintro ⟨⟨blueprint, h⟩, -⟩
          exact absurd h (hblueprint blueprint)
    · next hpatches =>
      refine ⟨fun h => absurd h (not_foreign_valueError _), ?_⟩
      rintro ⟨-, raws, h, -⟩
      exact absurd h (hpatches raws)

/-- A conversion fails otherwise than by a `ValueError` exactly on the stray objects. -/
theorem foreign_convert : Foreign (p.convert b o) ↔ Strays b p o := by
  cases p with
  | review base => exact foreign_map.trans foreign_review
  | checkpoint => exact foreign_map.trans foreign_checkpoint
  | toolReview => exact foreign_map.trans foreign_toolReview

/-! ## The payload -/

/-- The text has no braces. -/
def Prose (s : Str) : Prop :=
  123 ∉ s ∧ 125 ∉ s

instance (s : Str) : Decidable (Prose s) :=
  inferInstanceAs (Decidable (123 ∉ s ∧ 125 ∉ s))

theorem Prose.mono {t : Str} (h : Prose s) (hsub : t ⊆ s) : Prose t :=
  ⟨fun hmem => h.1 (hsub hmem), fun hmem => h.2 (hsub hmem)⟩

/-- The text of a tree stands between prose. -/
def Within (j x : Str) : Prop :=
  ∃ before after, Prose before ∧ Prose after ∧ x = before ++ (j ++ after)

/-- The text begins and ends with the braces of an object. -/
structure Braced (j : Str) : Prop where
  first : j.head? = some 123
  last : j.getLast? = some 125

theorem members_text_last : ∀ members : Members, members.text.getLast? = some 125
  | .last label value after => by
    rw [Members.text, List.getLast?_append_of_ne_nil _ (by simp)]
    rfl
  | .cons label value after members => by
    have hrest := members_text_last members
    have hne : members.text ≠ [] := by
      intro h
      rw [h] at hrest
      cases hrest
    rw [Members.text, List.getLast?_append_of_ne_nil _ (by simp), List.getLast?_cons, hrest]
    rfl

theorem scanToken_not_obj {r : Str} :
    scanToken floats s ≠ some (.obj o, r) := by
  intro h
  rw [scanToken, Option.orElse_eq_orElse, Option.orElse_eq_or, Option.or_eq_some_iff] at h
  rcases h with hliteral | ⟨-, hnumber⟩
  · obtain ⟨-, name, hname, -⟩ := literal?_takes hliteral
    simp [literals] at hname
  · rw [scanNumber_eq, Option.map_eq_some_iff] at hnumber
    obtain ⟨q, -, heq⟩ := hnumber
    rw [Prod.mk.injEq, numberOf] at heq
    have hvalue := heq.1
    split_ifs at hvalue

/-- A tree of an object is the object's. -/
theorem object_cases {d : Doc} (hd : d.Correct floats) (h : d.value = .obj o) :
    Braced d.text ∧ ¬ d.IsToken ∧ ∃ inner, d.objects = o :: inner := by
  cases d with
  | token value text =>
    rw [Doc.value] at h
    subst h
    exact absurd hd scanToken_not_obj
  | string => cases h
  | emptyArray => cases h
  | array => cases h
  | emptyObject space =>
    cases h
    refine ⟨⟨rfl, ?_⟩, id, [], rfl⟩
    rw [Doc.text, List.getLast?_append_of_ne_nil _ (by simp)]
    rfl
  | object members =>
    cases h
    refine ⟨⟨rfl, ?_⟩, id, members.objects, rfl⟩
    have hlast := members_text_last members
    rw [Doc.text, List.getLast?_cons, hlast]
    rfl

theorem Within.dropWhile (hj : Braced j) (h : Within j x) :
    Within j (x.dropWhile isWhitespace) := by
  obtain ⟨before, after, hbefore, hafter, rfl⟩ := h
  refine ⟨before.dropWhile isWhitespace, after,
    hbefore.mono (List.dropWhile_sublist _).subset, hafter, ?_⟩
  rw [List.dropWhile_append]
  split_ifs with hempty
  · rw [List.isEmpty_iff] at hempty
    rw [hempty]
    cases j with
    | nil => cases hj.first
    | cons c j =>
      obtain rfl : c = 123 := Option.some.inj hj.first
      rfl
  · rfl

theorem Within.rstrip (hj : Braced j) (h : Within j x) : Within j (rstrip x) := by
  obtain ⟨before, after, hbefore, hafter, rfl⟩ := h
  refine ⟨before, Fusion.rstrip after, hbefore, hafter.mono ?_, ?_⟩
  · intro c hc
    rw [Fusion.rstrip, List.mem_reverse] at hc
    exact List.mem_reverse.mp ((List.dropWhile_sublist _).subset hc)
  · rw [Fusion.rstrip, Fusion.rstrip, List.reverse_append, List.reverse_append, List.append_assoc,
      List.dropWhile_append]
    split_ifs with hempty
    · rw [List.isEmpty_iff] at hempty
      have hlast : j.reverse.head? = some 125 := by rw [List.head?_reverse, hj.last]
      rcases hrev : j.reverse with _ | ⟨c, k⟩
      · rw [hrev] at hlast
        cases hlast
      · rw [hrev] at hlast
        obtain rfl : c = 125 := Option.some.inj hlast
        have hdrop : (125 :: k ++ before.reverse).dropWhile isWhitespace = 125 :: k ++ before.reverse :=
          rfl
        rw [hdrop, ← hrev, hempty]
        simp
    · simp

theorem Within.strip (hj : Braced j) (h : Within j x) : Within j (strip x) :=
  (h.dropWhile hj).rstrip hj

/-- A part without the character begins the text before the character. -/
theorem prefix_of_notMem {part z : Str} {c : ℕ} (hc : c ∉ part) (h : part <+: s ++ c :: z) :
    part <+: s := by
  rcases List.prefix_or_prefix_of_prefix h (List.prefix_append s (c :: z)) with hle | ⟨t, rfl⟩
  · exact hle
  · cases t with
    | nil => simp
    | cons d t =>
      obtain rfl : d = c := (List.cons_prefix_cons.mp ((List.prefix_append_right_inj s).mp h)).1
      exact absurd (by simp) hc

theorem Within.drop {part : Str} (hj : Braced j) (hpart : 123 ∉ part) (hstarts : part <+: x) (h : Within j x) :
    Within j (x.drop part.length) := by
  obtain ⟨before, after, hbefore, hafter, rfl⟩ := h
  cases j with
  | nil => cases hj.first
  | cons c j =>
    obtain rfl : c = 123 := Option.some.inj hj.first
    obtain ⟨rest, rfl⟩ := prefix_of_notMem hpart hstarts
    refine ⟨rest, after, hbefore.mono (List.subset_append_right _ _), hafter, ?_⟩
    rw [List.append_assoc, List.drop_left]

theorem Within.take {part : Str} (hj : Braced j) (hpart : 125 ∉ part) (hends : part <:+ x) (h : Within j x) :
    Within j (x.take (x.length - part.length)) := by
  obtain ⟨before, after, hbefore, hafter, rfl⟩ := h
  have hlast : j.reverse.head? = some 125 := by rw [List.head?_reverse, hj.last]
  rcases hrev : j.reverse with _ | ⟨c, k⟩
  · rw [hrev] at hlast
    cases hlast
  · rw [hrev] at hlast
    obtain rfl : c = 125 := Option.some.inj hlast
    have hstarts : part.reverse <+: after.reverse ++ 125 :: (k ++ before.reverse) := by
      have := List.reverse_prefix.mpr hends
      rwa [List.reverse_append, List.reverse_append, hrev, List.append_assoc] at this
    have hsuffix : part <:+ after :=
      List.reverse_prefix.mp (prefix_of_notMem (by simpa using hpart) hstarts)
    obtain ⟨rest, rfl⟩ := hsuffix
    refine ⟨before, rest, hbefore, hafter.mono (List.subset_append_left _ _), ?_⟩
    have hsplit : before ++ (j ++ (rest ++ part)) = (before ++ (j ++ rest)) ++ part := by simp
    rw [hsplit, List.length_append, Nat.add_sub_cancel, List.take_left]

theorem Within.fenced {y : Str} (hj : Braced j) (h : Within j x) (hy : fenced x = some y) :
    Within j y := by
  rw [Fusion.fenced] at hy
  dsimp only at hy
  have hstart := h.dropWhile hj
  split_ifs at hy with hticks hjson hend hend
  · rw [Option.some.injEq] at hy
    subst hy
    have hlabel := ((hstart.drop hj (by decide) hticks).drop hj (by decide) hjson).dropWhile hj
    exact ((hlabel.rstrip hj).take hj (by decide) hend).rstrip hj
  · rw [Option.some.injEq] at hy
    subst hy
    have hlabel := (hstart.drop hj (by decide) hticks).dropWhile hj
    exact ((hlabel.rstrip hj).take hj (by decide) hend).rstrip hj

/-- **Thinking and fences are taken away from an object between prose, and the object stays.** -/
theorem payload_within {front before after : Str} (hj : Braced j) (hfront : Omlx.ThinkingSection front)
    (hbefore : Prose before) (hafter : Prose after) (htags : Omlx.Tagless (before ++ (j ++ after))) :
    Within j (payload (front ++ (before ++ (j ++ after)))) := by
  have hbody : Within j (before ++ (j ++ after)) := ⟨before, after, hbefore, hafter, rfl⟩
  have hregular : Within j (Omlx.extractThinking (front ++ (before ++ (j ++ after)))).2 := by
    rcases Omlx.extractThinking_section hfront htags with h | h
    · rw [h]
      exact hbody
    · rw [h]
      exact hbody.strip hj
  rw [payload]
  cases hfenced : fenced (Omlx.extractThinking (front ++ (before ++ (j ++ after)))).2 with
  | none => exact hregular
  | some y => exact hregular.fenced hj hfenced

/-! ## Reading -/

theorem scanValue_obj_head {fuel c : ℕ} {r : Str} (h : scanValue floats fuel (c :: s) = some (.obj o, r)) :
    c = 123 := by
  cases fuel with
  | zero => cases h
  | succ fuel =>
    rw [scanValue] at h
    split_ifs at h with h34 h123 h91
    · obtain ⟨q, -, heq⟩ := Option.map_eq_some_iff.mp h
      cases heq
    · exact h123
    · split at h
      · cases h
      · obtain ⟨q, -, heq⟩ := Option.map_eq_some_iff.mp h
        cases heq
    · exact absurd h scanToken_not_obj

/-- An object that is read from prose, a tree and prose is the object of the tree. -/
theorem loads_within {d : Doc} (hd : d.Correct floats) {o' : Json.Object} (ho : d.value = .obj o) {text : Str}
    (h : Within d.text text) (hloads : loads floats text = some (.obj o')) : o' = o := by
  obtain ⟨hbraced, htoken, -⟩ := object_cases hd ho
  obtain ⟨before, after, hbefore, -, rfl⟩ := h
  rw [loads] at hloads
  split_ifs at hloads
  split at hloads
  · cases hloads
  · next v r hscan =>
    split_ifs at hloads
    rw [Option.some.injEq] at hloads
    subst hloads
    rw [skipSpace, List.dropWhile_append] at hscan
    split_ifs at hscan with hempty
    · have hopens : (d.text ++ after).dropWhile isSpace = d.text ++ after :=
        ((opens_text hd).append after).skipSpace
      rw [hopens, scanValue_text hd (fun ht => absurd ht htoken) (by simp; omega), ho] at hscan
      cases hscan
      rfl
    · -- What is left of the prose begins with no brace.
      rcases hprose : before.dropWhile isSpace with _ | ⟨c, rest⟩
      · rw [hprose] at hempty
        exact absurd rfl hempty
      · rw [hprose] at hscan
        obtain rfl := scanValue_obj_head hscan
        exact absurd ((List.dropWhile_sublist _).subset (hprose ▸ List.mem_cons_self ..)) hbefore.1

/-- The decision is read although the object stands between prose. -/
def ReadsAs (b : Builtins) (p : Protocol) (inner : List Json.Object) (d : Decision) (text : Str) : Prop :=
  (∃ o, loads b.floats (payload text) = some (.obj o)) ∨
    (loads b.floats (payload text) = none ∧ ∀ r, lastSettled b p inner = some r → r = .ok d)

theorem decision_within {tree : Doc} (htree : tree.Correct b.floats) (ho : tree.value = .obj o) {d : Decision}
    (hd : p.convert b o = .ok d) {text : Str} (h : Within tree.text (payload text)) :
    decisionFromJson b p text = .ok d ↔ ReadsAs b p tree.objects.tail d text := by
  obtain ⟨-, htoken, inner, hobjects⟩ := object_cases htree ho
  rw [decisionFromJson, ReadsAs, hobjects, List.tail_cons]
  cases hloads : loads b.floats (payload text) with
  | some v =>
    cases v with
    | obj o' =>
      obtain rfl := loads_within htree ho h hloads
      exact ⟨fun _ => .inl ⟨_, rfl⟩, fun _ => hd⟩
    | null => exact ⟨nofun, nofun⟩
    | bool v => exact ⟨nofun, nofun⟩
    | int i => exact ⟨nofun, nofun⟩
    | float f => exact ⟨nofun, nofun⟩
    | str s => exact ⟨nofun, nofun⟩
    | arr items => exact ⟨nofun, nofun⟩
  | none =>
    have hfound : (found b.floats (payload text).length (payload text)).filter (keyed (str "action")) =
        (o :: inner).filter (keyed (str "action")) := by
      obtain ⟨before, after, hbefore, hafter, heq⟩ := h
      rw [← hobjects, heq, ← List.append_assoc]
      exact found_text ⟨99, by decide, by decide⟩ htree htoken hbefore.1 hafter.1 hafter.2
        (by simp; omega)
    have hlast : lastSettled b p (found b.floats (payload text).length (payload text)) =
        (lastSettled b p inner).or (some (.ok d)) := by
      rw [← lastSettled_filter, hfound, lastSettled_filter, lastSettled, List.reverse_cons,
        List.findSome?_append]
      have hself : settled b p o = some (.ok d) := by rw [settled, hd]
      rw [List.findSome?_singleton, hself]
      rfl
    dsimp only
    generalize found b.floats (payload text).length (payload text) = os at hlast
    have hselect : some (selectCandidate b p [] os.reverse) =
        (lastSettled b p inner).or (some (.ok d)) := by
      rw [← hlast]
      rcases selectCandidate_eq (b := b) (p := p) [] os.reverse with ⟨t, hnone, -⟩ | hsome
      · rw [lastSettled, hnone] at hlast
        cases hinner : lastSettled b p inner with
        | none => rw [hinner] at hlast; cases hlast
        | some r => rw [hinner] at hlast; cases hlast
      · exact hsome.symm
    have hread : selectCandidate b p [] os.reverse = .ok d ↔
        ∀ r, lastSettled b p inner = some r → r = .ok d := by
      cases hinner : lastSettled b p inner with
      | none =>
        rw [hinner, Option.none_or, Option.some.injEq] at hselect
        rw [hselect]
        exact ⟨fun _ _ h => (by cases h), fun _ => rfl⟩
      | some r =>
        rw [hinner, Option.some_or, Option.some.injEq] at hselect
        rw [hselect]
        exact ⟨fun h _ heq => (Option.some.inj heq) ▸ h, fun h => h r rfl⟩
    cases os with
    | nil =>
      exfalso
      cases hinner : lastSettled b p inner with
      | none => rw [hinner] at hlast; cases hlast
      | some r => rw [hinner] at hlast; cases hlast
    | cons o' os =>
      rw [hread]
      exact ⟨fun h => .inr ⟨rfl, h⟩, fun h => h.elim (fun ⟨_, h⟩ => by cases h) fun h => h.2⟩

/-! ## Failing -/

/-- No conversion that is tried fails otherwise than by a `ValueError`. -/
def Regular (b : Builtins) (p : Protocol) (text : Str) : Prop :=
  match loads b.floats (payload text) with
  | some (.obj o) => ¬ Strays b p o
  | some _ => True
  | none => ∀ before o after,
      found b.floats (payload text).length (payload text) = before ++ o :: after →
        (∀ o' ∈ after, settled b p o' = none) → ¬ Strays b p o

/-- The text is a decision or a `ValueError` is raised. -/
def Decides (r : Except Raised Decision) : Prop :=
  (∃ d, r = .ok d) ∨ ∃ t, r = .error (.valueError t)

theorem decides_iff {r : Except Raised Decision} : Decides r ↔ ¬ Foreign r := by
  cases r with
  | ok d => exact ⟨fun _ => not_foreign_ok d, fun _ => .inl ⟨d, rfl⟩⟩
  | error e =>
    cases e with
    | valueError t => exact ⟨fun _ => not_foreign_valueError t, fun _ => .inr ⟨t, rfl⟩⟩
    | typeError t =>
      refine ⟨?_, fun h => absurd ⟨_, rfl, id⟩ h⟩
      rintro (⟨d, h⟩ | ⟨t', h⟩) <;> cases h
    | overflowError t =>
      refine ⟨?_, fun h => absurd ⟨_, rfl, id⟩ h⟩
      rintro (⟨d, h⟩ | ⟨t', h⟩) <;> cases h

theorem settled_of_foreign (h : Foreign (p.convert b o)) :
    settled b p o = some (p.convert b o) := by
  obtain ⟨e, he, hvalue⟩ := h
  rw [settled, he]
  cases e with
  | valueError t => exact absurd trivial hvalue
  | typeError t => rfl
  | overflowError t => rfl

theorem convert_of_settled {r : Except Raised Decision} (h : settled b p o = some r) : p.convert b o = r := by
  rw [settled] at h
  split at h
  · cases h
  · exact Option.some.inj h

/-- The candidates fail otherwise when the last that is not refused is stray. -/
theorem foreign_selectCandidate {complaint : Str} {os : List Json.Object} :
    Foreign (selectCandidate b p complaint os.reverse) ↔ ∃ before o after, os = before ++ o :: after ∧
      (∀ o' ∈ after, settled b p o' = none) ∧ Strays b p o := by
  rcases selectCandidate_eq (b := b) (p := p) complaint os.reverse with ⟨t, hnone, heq⟩ | hsome
  · rw [heq]
    refine ⟨fun h => absurd h (not_foreign_valueError t), ?_⟩
    rintro ⟨before, o, after, rfl, -, hstrays⟩
    rw [List.findSome?_eq_none_iff] at hnone
    have hself := settled_of_foreign (foreign_convert.mpr hstrays)
    rw [hnone o (by simp)] at hself
    cases hself
  · constructor
    · intro hforeign
      obtain ⟨after, o, before, hos, ho, hafter⟩ := List.findSome?_eq_some_iff.mp hsome
      refine ⟨before.reverse, o, after.reverse, ?_, fun o' ho' => hafter o' (List.mem_reverse.mp ho'), ?_⟩
      · have := congrArg List.reverse hos
        simpa using this
      · rw [← foreign_convert, convert_of_settled ho]
        exact hforeign
    · rintro ⟨before, o, after, rfl, hafter, hstrays⟩
      have hforeign := foreign_convert.mpr hstrays
      have hself := settled_of_foreign hforeign
      have hfirst : (before ++ o :: after).reverse.findSome? (settled b p) = some (p.convert b o) := by
        rw [List.findSome?_eq_some_iff]
        exact ⟨after.reverse, o, before.reverse, by simp, hself, fun o' ho' =>
          hafter o' (List.mem_reverse.mp ho')⟩
      rw [hfirst, Option.some.injEq] at hsome
      rw [← hsome]
      exact hforeign

theorem decides_decisionFromJson (text : Str) :
    Decides (decisionFromJson b p text) ↔ Regular b p text := by
  rw [decides_iff, decisionFromJson, Regular]
  cases loads b.floats (payload text) with
  | some v =>
    cases v with
    | obj o => exact not_congr foreign_convert
    | null => exact ⟨fun _ => trivial, fun _ => not_foreign_valueError _⟩
    | bool v => exact ⟨fun _ => trivial, fun _ => not_foreign_valueError _⟩
    | int i => exact ⟨fun _ => trivial, fun _ => not_foreign_valueError _⟩
    | float f => exact ⟨fun _ => trivial, fun _ => not_foreign_valueError _⟩
    | str s => exact ⟨fun _ => trivial, fun _ => not_foreign_valueError _⟩
    | arr items => exact ⟨fun _ => trivial, fun _ => not_foreign_valueError _⟩
  | none =>
    dsimp only
    generalize found b.floats (payload text).length (payload text) = os
    cases os with
    | nil =>
      refine ⟨fun _ before o after h => absurd h (by simp), fun _ => not_foreign_valueError _⟩
    | cons o os =>
      dsimp only
      rw [foreign_selectCandidate]
      constructor
      · exact fun h before o' after heq hafter hstrays => h ⟨before, o', after, heq, hafter, hstrays⟩
      · rintro h ⟨before, o', after, heq, hafter, hstrays⟩
        exact h before o' after heq hafter hstrays

/-- **Which decision is read, and when the reading fails otherwise.**  From prose around an object
its decision is read exactly when the text is JSON by itself, or is not and the last object in it that
is not refused gives the same decision.  An answer without thinking tags, after thinking or in a fence,
is such a text.  And a text gives a decision or a `ValueError` exactly when no stray object is
tried. -/
theorem decision_texts (b : Builtins) (p : Protocol) :
    (∀ (tree : Doc) (o : Json.Object) (d : Decision) (text : Str), tree.Correct b.floats →
      tree.value = .obj o → p.convert b o = .ok d → Within tree.text (payload text) →
        (decisionFromJson b p text = .ok d ↔ ReadsAs b p tree.objects.tail d text)) ∧
    (∀ (tree : Doc) (o : Json.Object) (front before after : Str), tree.Correct b.floats →
      tree.value = .obj o → Omlx.ThinkingSection front → Prose before → Prose after →
      Omlx.Tagless (before ++ (tree.text ++ after)) →
        Within tree.text (payload (front ++ (before ++ (tree.text ++ after))))) ∧
    ∀ text, Decides (decisionFromJson b p text) ↔ Regular b p text := by
  refine ⟨fun tree o d text htree ho hd h => decision_within htree ho hd h,
    fun tree o front before after htree ho hfront hbefore hafter htags => ?_, decides_decisionFromJson⟩
  obtain ⟨hbraced, -, -⟩ := object_cases htree ho
  exact payload_within hbraced hfront hbefore hafter htags

/-- Conversions of plain texts. -/
def plainBuiltins : Builtins where
  floats := ⟨fun _ => [], fun _ => .nan⟩
  lower s := s
  text _ := []
  floatOf _ := none
  intOf _ := none
  complaint _ := []

/-- A member with a plain key. -/
def plainLabel (key : String) : Label := ⟨[], str key, str key, [], []⟩

/-- `{"action":"pass"}`. -/
def passing : Doc :=
  .object (.last (plainLabel "action") (.string (str "pass") (str "pass")) [])

/-- `{"action":"escalate","blueprint":{"action":"pass"}}`. -/
def escalating : Doc :=
  .object (.cons (plainLabel "action") (.string (str "escalate") (str "escalate")) []
    (.last (plainLabel "blueprint") passing []))

def passed : Decision := .review ⟨.pass, [], str "medium", none, [], [], [], []⟩

def escalated : Decision :=
  .review ⟨.escalate, [], str "medium", none, [], [], [(str "action", .str (str "pass"))], []⟩

/-- `{"action":"escalate","blueprint":{"action":"sleep"}}`. -/
def resting : Doc :=
  .object (.cons (plainLabel "action") (.string (str "escalate") (str "escalate")) []
    (.last (plainLabel "blueprint")
      (.object (.last (plainLabel "action") (.string (str "sleep") (str "sleep")) [])) []))

def rested : Decision :=
  .review ⟨.escalate, [], str "medium", none, [], [], [(str "action", .str (str "sleep"))], []⟩

theorem plainLabel_correct {key : String} (h : Plain (str key)) : (plainLabel key).Correct :=
  ⟨by simp [plainLabel, Blank], spells_plain h, by simp [plainLabel, Blank], by simp [plainLabel, Blank]⟩

theorem passing_correct : passing.Correct plainBuiltins.floats :=
  ⟨plainLabel_correct (by decide), spells_plain (by decide), by simp [Blank]⟩

theorem escalating_correct : escalating.Correct plainBuiltins.floats :=
  ⟨plainLabel_correct (by decide), spells_plain (by decide), by simp [Blank],
    plainLabel_correct (by decide), passing_correct, by simp [Blank]⟩

theorem resting_correct : resting.Correct plainBuiltins.floats :=
  ⟨plainLabel_correct (by decide), spells_plain (by decide), by simp [Blank],
    plainLabel_correct (by decide), ⟨plainLabel_correct (by decide), spells_plain (by decide),
      by simp [Blank]⟩, by simp [Blank]⟩

/-- `Sure: {"action":"escalate","blueprint":{"action":"sleep"}}` is read as it is meant: the object
in it is refused. -/
theorem decision_texts_resting :
    decisionFromJson plainBuiltins (.review none) (str "Sure: " ++ (resting.text ++ [])) =
      .ok rested := by
  have hlaw := decision_texts plainBuiltins (.review none)
  refine (hlaw.1 resting _ rested _ resting_correct rfl rfl (hlaw.2.1 resting _ [] (str "Sure: ") []
    resting_correct rfl .nothing (by decide) (by decide) (by decide))).mpr (.inr ⟨rfl, ?_⟩)
  intro r h
  cases h

/-- `Sure: {"action":"escalate","blueprint":{"action":"pass"}}` passes the draft, and
`{"action":"pass","confidence":[]}` raises a `TypeError`. -/
theorem decision_not_read :
    (¬ ∀ (b : Builtins) (p : Protocol) (front before after : Str) (tree : Doc) (o : Json.Object)
      (d : Decision), Omlx.ThinkingSection front → Prose before → Prose after → tree.Correct b.floats →
      tree.value = .obj o → p.convert b o = .ok d →
        decisionFromJson b p (front ++ (before ++ (tree.text ++ after))) = .ok d) ∧
    ¬ ∀ (b : Builtins) (p : Protocol) (text : Str), Decides (decisionFromJson b p text) := by
  constructor
  · intro h
    have hread := h plainBuiltins (.review none) [] (str "Sure: ") [] escalating _ escalated .nothing
      (by decide) (by decide) escalating_correct rfl rfl
    have hpassed : decisionFromJson plainBuiltins (.review none)
        (str "Sure: " ++ (escalating.text ++ [])) = .ok passed := rfl
    rw [List.nil_append, hpassed] at hread
    cases hread
  · intro h
    have hraised : decisionFromJson plainBuiltins .toolReview
        (str "\x7b\"action\":\"pass\",\"confidence\":[]\x7d") = .error (.typeError []) := rfl
    rcases h plainBuiltins .toolReview (str "\x7b\"action\":\"pass\",\"confidence\":[]\x7d") with
      ⟨d, hd⟩ | ⟨t, ht⟩
    · rw [hraised] at hd
      cases hd
    · rw [hraised] at ht
      cases ht

end AI2Apps.Fusion
