import AI2Apps.Lib.Glob
import AI2Apps.Lib.JsonText
import AI2Apps.Lib.TextReplace
import AI2Apps.Lib.Utf8
import AI2Apps.Packages.Archive

/-!
# The draft of a project

A draft is a workspace of files that an agent reads and edits.  A read gives a window of lines and
notes the digest of the file as observed; a write to a file that exists needs an observation that is
still true.

* `safePath`: the paths that may be edited.
* `read`, `write`, `edit`: the operations, with the draft after them.
* `edit_ok`: what an edit that succeeds has done.
* `edit_error`: an edit that raises has done nothing, unless it is the state that is not saved.

The workspace has regular files and no links; the digest is a parameter.
-/

namespace AI2Apps.AppDevelopment

open Packages (pathParts)
open TextReplace (count replace translate)

abbrev Bytes := List ℕ

/-- The parts of a path in the workspace. -/
abbrev Path := List Str

/-- `MAX_FILES`. -/
def maxFiles : ℕ := 512

/-- `MAX_BYTES`. -/
def maxBytes : ℕ := 32 * 1024 * 1024

/-- `MAX_FILE_BYTES`. -/
def maxFileBytes : ℕ := 8 * 1024 * 1024

/-- `MAX_TEXT_BYTES`. -/
def maxTextBytes : ℕ := 2 * 1024 * 1024

/-- `IGNORED`. -/
def ignored : List Str :=
  [".git", ".hg", ".svn", "node_modules", ".venv", "venv", "__pycache__", ".pytest_cache", "dist", ".build",
    ".DS_Store"].map str

/-- `SECRET_NAMES`. -/
def secretNames : List Str := [".env*", "*.pem", "*.key", ".npmrc", ".pypirc", "credentials*"].map str

/-- `safe_path`, in a workspace without links. -/
def safePath (relative : Str) : Except Str Path :=
  let parts := pathParts relative
  if relative = [] ∨ relative.head? = some 47 ∨ str ".." ∈ parts ∨ 92 ∈ relative ∨ 0 ∈ relative then
    .error (str "unsafe_path")
  else if parts.any fun p => decide (p ∈ ignored) || secretNames.any fun q => Glob.fnmatchcase p q then
    .error (str "excluded_path")
  else .ok parts

/-- The workspace and the state of a draft. -/
structure Draft where
  files : List (Path × Bytes)
  observed : Str → Option Str
  applied : Bool
  /-- The state names the source and the workspace of the draft. -/
  bindingKept : Bool

/-- The content of a file. -/
def Draft.file (draft : Draft) (path : Path) : Option Bytes := (draft.files.find? (·.1 = path)).map Prod.snd

def Draft.isFile (draft : Draft) (path : Path) : Bool := (draft.file path).isSome

/-- A path below which there are files. -/
def Draft.isDirectory (draft : Draft) (path : Path) : Bool :=
  draft.files.any fun f => path.isPrefixOf f.1 && decide (f.1 ≠ path)

/-- `atomic_write`. -/
def Draft.atomicWrite (draft : Draft) (path : Path) (data : Bytes) : Draft :=
  { draft with files :=
      if draft.isFile path then draft.files.map fun f => if f.1 = path then (path, data) else f
      else draft.files ++ [(path, data)] }

/-- `value["observed"][relative] = ...`, and `_save`. -/
def Draft.observe (draft : Draft) (relative digest : Str) : Draft :=
  { draft with observed := Function.update draft.observed relative (some digest) }

/-- `files(workspace)`: the sizes of the files that are not excluded. -/
def Draft.inventory (draft : Draft) : Except Str (List (Path × ℕ)) :=
  let kept := draft.files.filter fun f => (safePath ([47].intercalate f.1)).isOk
  let sizes := kept.map fun f => (f.1, f.2.length)
  if sizes.any (fun s => maxFileBytes < s.2) ∨ maxBytes < (sizes.map Prod.snd).sum ∨ maxFiles < sizes.length then
    .error (str "project_too_large")
  else .ok sizes

/-! ## Reading -/

/-- The line boundaries of `str.splitlines`, apart from `\r\n`. -/
def isBreak (c : ℕ) : Bool :=
  (10 ≤ c && c ≤ 13) || (28 ≤ c && c ≤ 30) || c = 133 || c = 8232 || c = 8233

/-- The lines, after the beginning of the first. -/
def splitFrom (line : Str) : Str → List Str
  | [] => if line = [] then [] else [line]
  | 13 :: 10 :: rest => line :: splitFrom [] rest
  | c :: rest => if isBreak c then line :: splitFrom [] rest else splitFrom (line ++ [c]) rest

/-- `text.splitlines()`. -/
def splitlines (text : Str) : List Str := splitFrom [] text

/-- `f"{number}: {line[:2000]}"`. -/
def rendered (number : ℕ) (line : Str) : Str := JsonText.natText number ++ str ": " ++ line.take 2000

/-- The loop over the lines of the window. -/
def select : ℕ → ℕ → List Str → Except Str (List Str)
  | _, _, [] => .ok []
  | used, number, line :: rest =>
    match Utf8.encode (rendered number line) with
    | none => .error (str "surrogates not allowed")
    | some bytes =>
      if 16000 < used + bytes.length then .ok []
      else
        match select (used + bytes.length) (number + 1) rest with
        | .error e => .error e
        | .ok selected => .ok (rendered number line :: selected)

/-- What `read` returns. -/
structure Window where
  path : Str
  sha256 : Str
  content : Str
  totalLines : ℕ
  nextOffset : Option ℕ
  lineTruncated : Bool

/-- `read`. -/
def read (digest : Bytes → Str) (draft : Draft) (relative : Str) (offset limit : ℕ) :
    Draft × Except Str Window :=
  match safePath relative with
  | .error e => (draft, .error e)
  | .ok path =>
    match draft.file path with
    | none => (draft, .error (str "file_not_found"))
    | some content =>
      if maxTextBytes < content.length then (draft, .error (str "file_too_large"))
      else
        match Utf8.decode content with
        | none => (draft, .error (str "binary_file"))
        | some text =>
          let lines := splitlines text
          if offset < 1 ∨ ¬ (1 ≤ limit ∧ limit ≤ 500) then (draft, .error (str "invalid_window"))
          else
            match select 0 offset ((lines.drop (offset - 1)).take limit) with
            | .error e => (draft, .error e)
            | .ok selected =>
              if ¬ draft.bindingKept then (draft, .error (str "draft_binding_changed"))
              else
                (draft.observe relative (digest content),
                  .ok
                    { path := relative
                      sha256 := digest content
                      content := [10].intercalate selected
                      totalLines := lines.length
                      nextOffset :=
                        if offset + selected.length ≤ lines.length then some (offset + selected.length)
                        else none
                      lineTruncated :=
                        ((lines.drop (offset - 1)).take selected.length).any fun line => 2000 < line.length })

/-! ## Writing -/

/-- Why a file may not be written: a file that exists has to be observed as it is. -/
def refusal (digest : Bytes → Str) (draft : Draft) (relative : Str) (path : Path) (expected : Option Str) :
    Option Str :=
  match draft.file path with
  | some current =>
    if expected = none ∨ expected = some [] ∨ draft.observed relative ≠ expected ∨
        some (digest current) ≠ expected then some (str "unobserved_or_changed")
    else none
  | none => if expected ≠ none then some (str "file_not_found") else none

/-- The checks of `write`: where to write, and the bytes. -/
def writeChecks (digest : Bytes → Str) (draft : Draft) (relative content : Str) (expected : Option Str) :
    Except Str (Path × Bytes) :=
  match safePath relative with
  | .error e => .error e
  | .ok path =>
    if ¬ draft.bindingKept then .error (str "draft_binding_changed")
    else if draft.applied then .error (str "draft_applied")
    else if draft.isDirectory path then .error (str "Is a directory")
    else
      match refusal digest draft relative path expected with
      | some e => .error e
      | none =>
        match Utf8.encode content with
        | none => .error (str "surrogates not allowed")
        | some data =>
          if maxTextBytes < data.length then .error (str "file_too_large")
          else
            match draft.inventory with
            | .error e => .error e
            | .ok inventory =>
              -- The inventory is looked up by the text of the path as it is given.
              let own := inventory.find? fun s => [47].intercalate s.1 = relative
              let total := (inventory.map Prod.snd).sum - (own.map Prod.snd).getD 0 + data.length
              if maxBytes < total ∨ (own = none ∧ maxFiles ≤ inventory.length) then
                .error (str "project_too_large")
              else if draft.files.any fun f => f.1.isPrefixOf path && decide (f.1 ≠ path) then
                .error (str "Not a directory")
              else .ok (path, data)

/-- What the disk does to a write: `atomic_write` raises and leaves the file as it was, or the `_save`
that follows raises. -/
inductive Disk where
  | works
  | writeRaises
  | saveRaises
  deriving DecidableEq

/-- `write`: the draft, and the digest that is returned. -/
def write (digest : Bytes → Str) (disk : Disk) (draft : Draft) (relative content : Str)
    (expected : Option Str) : Draft × Except Str Str :=
  match writeChecks digest draft relative content expected with
  | .error e => (draft, .error e)
  | .ok (path, data) =>
    match disk with
    | .works => ((draft.atomicWrite path data).observe relative (digest data), .ok (digest data))
    | .writeRaises => (draft, .error (str "OSError"))
    | .saveRaises => (draft.atomicWrite path data, .error (str "OSError"))

/-- `edit`: the text is read in text mode, which translates line endings. -/
def edit (digest : Bytes → Str) (disk : Disk) (draft : Draft) (relative old new : Str)
    (expected : Option Str) (replaceAll : Bool) : Draft × Except Str Str :=
  match safePath relative with
  | .error e => (draft, .error e)
  | .ok path =>
    if old = [] ∨ old = new then (draft, .error (str "invalid_edit"))
    else
      match draft.file path with
      | none => (draft, .error (str "No such file or directory"))
      | some content =>
        match Utf8.decode content with
        | none => (draft, .error (str "invalid utf-8"))
        | some decoded =>
          let text := translate decoded
          if count text old = 0 ∨ (replaceAll = false ∧ count text old ≠ 1) then
            (draft, .error (str "ambiguous_edit"))
          else write digest disk draft relative (replace text old new) expected

/-! ## What an edit does -/

variable {draft : Draft} {path : Path} {data : Bytes} {digest : Bytes → Str} {relative : Str}
  {expected : Option Str}

theorem admit_eq_ok {content : Str}
    (h : writeChecks digest draft relative content expected = .ok (path, data)) :
    safePath relative = .ok path ∧ Utf8.encode content = some data := by
  unfold writeChecks at h
  split at h
  · cases h
  · rename_i path' hpath
    by_cases hbinding : ¬ draft.bindingKept = true
    · rw [if_pos hbinding] at h
      cases h
    rw [if_neg hbinding] at h
    by_cases happlied : draft.applied = true
    · rw [if_pos happlied] at h
      cases h
    rw [if_neg happlied] at h
    by_cases hdirectory : draft.isDirectory path' = true
    · rw [if_pos hdirectory] at h
      cases h
    rw [if_neg hdirectory] at h
    split at h
    · cases h
    · split at h
      · cases h
      · rename_i data' hdata
        by_cases hlarge : maxTextBytes < data'.length
        · rw [if_pos hlarge] at h
          cases h
        rw [if_neg hlarge] at h
        split at h
        · cases h
        · dsimp only at h
          split_ifs at h
          obtain ⟨rfl, rfl⟩ := Prod.mk.inj (Except.ok.inj h)
          exact ⟨hpath, hdata⟩

/-- The file at the path has been written, and the state was not saved. -/
def Unsaved (disk : Disk) (draft draft' : Draft) (relative : Str) : Prop :=
  disk = .saveRaises ∧ ∃ path data, safePath relative = .ok path ∧ draft' = draft.atomicWrite path data

/-- An edit that raises has done nothing, unless the state is not saved after the file is written. -/
theorem edit_error {disk : Disk} {draft' : Draft} {old new e : Str} {replaceAll : Bool}
    (h : edit digest disk draft relative old new expected replaceAll = (draft', .error e)) :
    draft' = draft ∨ Unsaved disk draft draft' relative := by
  unfold edit at h
  split at h
  · exact .inl (Prod.mk.inj h).1.symm
  · split at h
    · exact .inl (Prod.mk.inj h).1.symm
    · split at h
      · exact .inl (Prod.mk.inj h).1.symm
      · split at h
        · exact .inl (Prod.mk.inj h).1.symm
        · dsimp only at h
          split at h
          · exact .inl (Prod.mk.inj h).1.symm
          · unfold write at h
            split at h
            · exact .inl (Prod.mk.inj h).1.symm
            · rename_i path data hadmit
              cases disk with
              | works => cases (Prod.mk.inj h).2
              | writeRaises => exact .inl (Prod.mk.inj h).1.symm
              | saveRaises => exact .inr ⟨rfl, path, data, (admit_eq_ok hadmit).1, (Prod.mk.inj h).1.symm⟩

/-- What an edit that succeeds has done: the text in text mode, with the old text replaced. -/
theorem edit_ok {disk : Disk} {draft' : Draft} {old new result : Str} {replaceAll : Bool}
    (h : edit digest disk draft relative old new expected replaceAll = (draft', .ok result)) :
    ∃ path content decoded data, safePath relative = .ok path ∧ draft.file path = some content ∧
      Utf8.decode content = some decoded ∧ old ≠ [] ∧ count (translate decoded) old ≠ 0 ∧
      (replaceAll = false → count (translate decoded) old = 1) ∧
      Utf8.encode (replace (translate decoded) old new) = some data ∧
      draft' = (draft.atomicWrite path data).observe relative (digest data) := by
  unfold edit at h
  split at h
  · cases (Prod.mk.inj h).2
  · rename_i path hpath
    split at h
    · cases (Prod.mk.inj h).2
    · rename_i hinvalid
      split at h
      · cases (Prod.mk.inj h).2
      · rename_i content hcontent
        split at h
        · cases (Prod.mk.inj h).2
        · rename_i decoded hdecoded
          dsimp only at h
          split at h
          · cases (Prod.mk.inj h).2
          · rename_i hambiguous
            unfold write at h
            split at h
            · cases (Prod.mk.inj h).2
            · rename_i path' data hadmit
              obtain ⟨hpath', hdata⟩ := admit_eq_ok hadmit
              rw [hpath] at hpath'
              obtain rfl := Except.ok.inj hpath'
              cases disk with
              | works =>
                refine ⟨path, content, decoded, data, hpath, hcontent, hdecoded, fun ho => hinvalid (Or.inl ho),
                  fun hcount => hambiguous (Or.inl hcount), fun hall => ?_, hdata, (Prod.mk.inj h).1.symm⟩
                exact by_contra fun hcount => hambiguous (Or.inr ⟨hall, hcount⟩)
              | writeRaises => cases (Prod.mk.inj h).2
              | saveRaises => cases (Prod.mk.inj h).2

/-! ## The files after a write -/

theorem find?_map_of_eq {path : Path} {data : Bytes} :
    ∀ {files : List (Path × Bytes)}, (files.find? (·.1 = path)).isSome →
      (files.map fun f => if f.1 = path then (path, data) else f).find? (·.1 = path) = some (path, data)
  | [], h => by cases h
  | f :: files, h => by
    rw [List.map_cons]
    by_cases hf : f.1 = path
    · rw [if_pos hf, List.find?_cons_of_pos (by simp)]
    · rw [List.find?_cons_of_neg (by simpa using hf)] at h
      rw [if_neg hf, List.find?_cons_of_neg (by simpa using hf), find?_map_of_eq h]

theorem find?_map_of_ne {path other : Path} {data : Bytes} (hne : other ≠ path) :
    ∀ files : List (Path × Bytes),
      (files.map fun f => if f.1 = path then (path, data) else f).find? (·.1 = other) =
        files.find? (·.1 = other)
  | [] => rfl
  | f :: files => by
    rw [List.map_cons]
    by_cases hf : f.1 = path
    · rw [if_pos hf, List.find?_cons_of_neg (by simpa using hne.symm),
        List.find?_cons_of_neg (by simpa [hf] using hne.symm), find?_map_of_ne hne files]
    · rw [if_neg hf]
      by_cases ho : f.1 = other
      · rw [List.find?_cons_of_pos (by simpa using ho), List.find?_cons_of_pos (by simpa using ho)]
      · rw [List.find?_cons_of_neg (by simpa using ho), List.find?_cons_of_neg (by simpa using ho),
          find?_map_of_ne hne files]

/-- A file that is written has the data, and the others are as they were. -/
theorem file_atomicWrite {draft : Draft} {path : Path} {data content : Bytes}
    (h : draft.file path = some content) (other : Path) :
    (draft.atomicWrite path data).file other = if other = path then some data else draft.file other := by
  have hfile : draft.isFile path = true := by rw [Draft.isFile, h, Option.isSome_some]
  rw [Draft.atomicWrite, Draft.file]
  dsimp only
  rw [if_pos hfile]
  split_ifs with ho
  · rw [Draft.isFile, Draft.file, Option.isSome_map] at hfile
    rw [ho, find?_map_of_eq hfile, Option.map_some]
  · rw [find?_map_of_ne ho, Draft.file]

end AI2Apps.AppDevelopment
