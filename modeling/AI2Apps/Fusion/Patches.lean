import AI2Apps.Fusion.Gate
import AI2Apps.Lib.TextReplace
import AI2Apps.Lib.Utf8

/-!
# The patches of a draft

`patching.py`: replacements in a draft, each of a part that occurs as often as the patch expects, in the
whole draft or in one of its fenced blocks.

* `fencedBlocks`, `targetSpan`: where a patch is applied.
* `applyOne`, `applyStructuredPatches`: the patched text.
* `applyStructuredPatches_other`: what is raised besides a `PatchApplyError`.

The texts of a `PatchApplyError` only reach the metadata of a result, and are left out.
-/

namespace AI2Apps.Fusion

open TextOrder

/-- What is raised: a `PatchApplyError`, or anything else. -/
inductive PatchRaised (Exn : Type) where
  | applyError
  | other (e : Exn)

/-- What patching uses of the language: characters that are digits, `int` of digits, what it raises,
hashing, and `SequenceMatcher`, whose matching blocks make the ratio. -/
structure Texts (Exn : Type) where
  isDigit : ℕ → Bool
  intOf : Str → Except Exn ℕ
  sha256 : List ℕ → Str
  unicodeEncodeError : Str → Exn
  changedRatio : Str → Str → FloatVal

/-! ## Targets -/

/-- Where a part is first. -/
def findText (part text : Str) : Option ℕ := text.tails.findIdx? fun rest => part.isPrefixOf rest

def fence : Str := str "```"

/-- The body of a fenced block that begins here, by its first and last places. -/
def fencedBody (text : Str) : Option (ℕ × ℕ) := do
  if ¬ fence <+: text then none
  let line ← findText [10] (text.drop 3)
  let close ← findText fence (text.drop (3 + line + 1))
  return (3 + line + 1, 3 + line + 1 + close)

/-- `_FENCED_BLOCK.finditer`, from a place on and after `skip` more characters. -/
def blocksFrom : ℕ → ℕ → Str → List (ℕ × ℕ)
  | _, _, [] => []
  | place, skip + 1, _ :: rest => blocksFrom (place + 1) skip rest
  | place, 0, c :: rest =>
    match fencedBody (c :: rest) with
    | some (first, last) => (place + first, place + last) :: blocksFrom (place + 1) (last + 2) rest
    | none => blocksFrom (place + 1) 0 rest

def fencedBlocks (text : Str) : List (ℕ × ℕ) := blocksFrom 0 0 text

variable {Exn : Type} (t : Texts Exn)

/-- `_target_span`. -/
def targetSpan (text target : Str) : Except (PatchRaised Exn) (ℕ × ℕ) :=
  let name := str "code_block_"
  if target = str "document" then .ok (0, text.length)
  else if name <+: target ∧ target.drop name.length ≠ [] ∧ (target.drop name.length).all t.isDigit then
    match t.intOf (target.drop name.length) with
    | .error e => .error (.other e)
    | .ok index =>
      match (fencedBlocks text)[index]? with
      | some span => .ok span
      | none => .error .applyError
  else .error .applyError

/-! ## Patches -/

/-- What the part is replaced by. -/
def StructuredPatch.replacement (p : StructuredPatch) : Str :=
  match p.operation with
  | .replace => p.after
  | .insertBefore => p.after ++ p.before
  | .insertAfter => p.before ++ p.after
  | .delete => []

/-- `_apply_one`.  All occurrences are replaced, for there are as many as the patch expects. -/
def applyOne (text : Str) (p : StructuredPatch) : Except (PatchRaised Exn) Str := do
  let (first, last) ← targetSpan t text p.target
  let target := (text.take last).drop first
  if (TextReplace.count target p.before : ℤ) ≠ p.expectedOccurrences then throw .applyError
  return text.take first ++ TextReplace.replace target p.before p.replacement ++ text.drop last

def applyEach (text : Str) : List StructuredPatch → Except (PatchRaised Exn) Str
  | [] => .ok text
  | p :: patches => do
    let text ← applyOne t text p
    applyEach text patches

/-- `text_sha256`. -/
def textSha256 (text : Str) : Except Exn Str :=
  match Utf8.encode text with
  | some bytes => .ok (t.sha256 bytes)
  | none => .error (t.unicodeEncodeError text)

/-- `apply_structured_patches`, without the ratio. -/
def applyStructuredPatches (maxChangedRatio : FloatVal) (draft : Str) (patches : List StructuredPatch) :
    Except (PatchRaised Exn) Str := do
  if patches = [] then throw .applyError
  let expected ← (textSha256 t draft).mapError .other
  if patches.any fun p => p.baseSha256 ≠ expected then throw .applyError
  let result ← applyEach t draft patches
  if floatLt maxChangedRatio (t.changedRatio draft result) then throw .applyError
  return result

/-! ## What is raised -/

/-- The target is a block whose number is not read. -/
def Unreadable (p : StructuredPatch) : Prop :=
  ∃ e, t.intOf (p.target.drop (str "code_block_").length) = .error e

def Encodable (text : Str) : Prop := Utf8.encode text ≠ none

variable {t}

theorem targetSpan_other {text target : Str} {e : Exn} (h : targetSpan t text target = .error (.other e)) :
    t.intOf (target.drop (str "code_block_").length) = .error e := by
  unfold targetSpan at h
  dsimp only at h
  split_ifs at h with hdocument hblock
  · split at h
    · rename_i raised hraised
      rw [hraised, PatchRaised.other.inj (Except.error.inj h)]
    · split at h <;> cases h
  · cases h

theorem applyOne_other {text : Str} {p : StructuredPatch} {e : Exn} (h : applyOne t text p = .error (.other e)) :
    Unreadable t p := by
  unfold applyOne at h
  cases hspan : targetSpan t text p.target with
  | error raised =>
    rw [hspan] at h
    cases raised with
    | applyError => cases h
    | other raised => exact ⟨raised, targetSpan_other hspan⟩
  | ok span =>
    rw [hspan] at h
    simp only [bind, Except.bind, pure, Except.pure, throw, throwThe, MonadExceptOf.throw] at h
    split_ifs at h
    cases h

theorem applyEach_other {e : Exn} : ∀ {patches : List StructuredPatch} {text : Str},
    applyEach t text patches = .error (.other e) → ∃ p ∈ patches, Unreadable t p
  | [], _, h => by cases h
  | p :: patches, text, h => by
    rw [applyEach] at h
    cases hone : applyOne t text p with
    | error raised =>
      rw [hone] at h
      obtain rfl := Except.error.inj h
      exact ⟨p, List.mem_cons_self .., applyOne_other hone⟩
    | ok text' =>
      rw [hone] at h
      obtain ⟨q, hq, hunreadable⟩ := applyEach_other h
      exact ⟨q, List.mem_cons_of_mem _ hq, hunreadable⟩

theorem textSha256_error {text : Str} {e : Exn} (h : textSha256 t text = .error e) : ¬ Encodable text := by
  unfold textSha256 at h
  unfold Encodable
  split at h
  · cases h
  · rename_i hnone
    exact not_not_intro hnone

/-- **Patches raise nothing but a `PatchApplyError`**, unless the draft has no digest or the number of a
block is not read. -/
theorem applyStructuredPatches_other {limit : FloatVal} {draft : Str} {patches : List StructuredPatch} {e : Exn}
    (h : applyStructuredPatches t limit draft patches = .error (.other e)) :
    ¬ Encodable draft ∨ ∃ p ∈ patches, Unreadable t p := by
  unfold applyStructuredPatches at h
  split_ifs at h
  · cases h
  · cases hdigest : textSha256 t draft with
    | error raised => exact Or.inl (textSha256_error hdigest)
    | ok expected =>
      rw [hdigest] at h
      simp only [Except.mapError, bind, Except.bind, pure, Except.pure, throw, throwThe,
        MonadExceptOf.throw] at h
      split_ifs at h
      · cases h
      cases heach : applyEach t draft patches with
      | error raised =>
        rw [heach] at h
        obtain rfl := Except.error.inj h
        exact Or.inr (applyEach_other heach)
      | ok result =>
        rw [heach] at h
        dsimp only at h
        split_ifs at h
        cases h

end AI2Apps.Fusion
