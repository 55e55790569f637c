import AI2Apps.Lib.JsonText
import AI2Apps.Packages.Archive

/-!
# The files and pieces of a checkpoint manifest

A distribution manifest lists the files of a checkpoint, each with its size and digest, and cuts
the stream of their bytes into pieces of one size, each with a digest of its own.

* `CheckpointFile`, `Manifest`: what an accepted manifest says of files and pieces.
* `parse`: the checks of `parse_checkpoint_distribution_manifest` on them.
* `parse_accepted`: what an accepted manifest has.

The license, the sources and the names of a manifest are checked too, and left out.
-/

namespace AI2Apps.Checkpoints

open Packages (pathParts)

structure CheckpointFile where
  path : Str
  size : ℕ
  sha256 : Str
  deriving DecidableEq

/-- What a `CheckpointDistributionManifest` says of files and pieces. -/
structure Manifest where
  estimatedSizeBytes : ℕ
  files : List CheckpointFile
  pieceSize : ℕ
  pieceHashes : List Str
  deriving DecidableEq

/-- `data.get(key)`. -/
def get (key : String) (raw : Json.Object) : Json := (Json.lookup (str key) raw).getD .null

/-- `files[3].path`. -/
def label (name : String) (index : ℕ) (field : String) : Str :=
  str name ++ [91] ++ JsonText.natText index ++ [93] ++ str field

/-- `_object`. -/
def object (value : Json) (label : Str) : Except Str Json.Object :=
  match value with
  | .obj o => .ok o
  | _ => .error (label ++ str " must be an object")

/-- `_string`. -/
def string (value : Json) (label : Str) : Except Str Str :=
  match value with
  | .str s => if s = [] then .error (label ++ str " must be a non-empty string") else .ok s
  | _ => .error (label ++ str " must be a non-empty string")

/-- `text.lower()` where it matters: no other code point has a lower case among the letters of a
digest. -/
def lower (text : Str) : Str := text.map fun c => if 65 ≤ c ∧ c ≤ 90 then c + 32 else c

/-- `[0-9a-f]`. -/
def isHex (c : ℕ) : Bool := (48 ≤ c && c ≤ 57) || (97 ≤ c && c ≤ 102)

/-- `_digest`: the hexadecimal digits, after `sha256:` or alone. -/
def digest (value : Json) (label : Str) : Except Str Str :=
  match string value label with
  | .error e => .error e
  | .ok text =>
    let text := lower text
    let digits := if str "sha256:" <+: text then text.drop 7 else text
    if digits.length = 64 ∧ digits.all isHex then .ok digits
    else .error (label ++ str " must be a SHA-256 digest")

/-- `_path`. -/
def path (value : Json) (label : Str) : Except Str Str :=
  match string value label with
  | .error e => .error e
  | .ok text =>
    if text.head? = some 47 ∨ 92 ∈ text ∨ str ".." ∈ pathParts text then
      .error (label ++ str " must be a safe relative path")
    else .ok text

/-- A positive integer that is no boolean. -/
def positive (value : Json) : Option ℕ :=
  match value with
  | .int i => if 0 < i then some i.toNat else none
  | _ => none

/-- The loop over `files`, with the paths seen. -/
def parseFiles : ℕ → List Str → List Json → Except Str (List CheckpointFile)
  | _, _, [] => .ok []
  | index, seen, item :: rest =>
    match object item (label "files" index "") with
    | .error e => .error e
    | .ok entry =>
      match path (get "path" entry) (label "files" index ".path") with
      | .error e => .error e
      | .ok filePath =>
        match positive (get "size" entry) with
        | none => .error (label "files" index ".size is invalid")
        | some size =>
          if filePath ∈ seen then .error (str "checkpoint file paths must be unique")
          else
            match digest (get "sha256" entry) (label "files" index ".sha256") with
            | .error e => .error e
            | .ok sha256 =>
              match parseFiles (index + 1) (filePath :: seen) rest with
              | .error e => .error e
              | .ok files => .ok (⟨filePath, size, sha256⟩ :: files)

def parseHashes : ℕ → List Json → Except Str (List Str)
  | _, [] => .ok []
  | index, item :: rest =>
    match digest item (label "pieceHashes" index "") with
    | .error e => .error e
    | .ok hash =>
      match parseHashes (index + 1) rest with
      | .error e => .error e
      | .ok hashes => .ok (hash :: hashes)

def totalSize (files : List CheckpointFile) : ℕ := (files.map CheckpointFile.size).sum

/-- `(total_size + piece_size - 1) // piece_size`. -/
def pieceCount (total pieceSize : ℕ) : ℕ := (total + pieceSize - 1) / pieceSize

/-- A power of two between 1 MiB and 64 MiB. -/
def isPieceSize (n : ℕ) : Bool :=
  1024 * 1024 ≤ n && n ≤ 64 * 1024 * 1024 && n &&& (n - 1) = 0

/-- `parse_checkpoint_distribution_manifest`, of the files and pieces. -/
def parse (raw : Json.Object) : Except Str Manifest :=
  match positive (get "estimatedSizeBytes" raw) with
  | none => .error (str "estimatedSizeBytes must be a positive integer")
  | some estimatedSize =>
    match get "files" raw with
    | .arr (item :: items) =>
      match parseFiles 0 [] (item :: items) with
      | .error e => .error e
      | .ok files =>
        if estimatedSize ≠ totalSize files then
          .error (str "estimatedSizeBytes must equal the verified file size total")
        else
          match positive (get "pieceSize" raw) with
          | none => .error (str "pieceSize must be a power of two between 1 MiB and 64 MiB")
          | some pieceSize =>
            if ¬ isPieceSize pieceSize then
              .error (str "pieceSize must be a power of two between 1 MiB and 64 MiB")
            else
              match get "pieceHashes" raw with
              | .arr hashes =>
                if hashes.length ≠ pieceCount (totalSize files) pieceSize then
                  .error (str "pieceHashes count does not match file bytes")
                else
                  match parseHashes 0 hashes with
                  | .error e => .error e
                  | .ok pieceHashes => .ok ⟨estimatedSize, files, pieceSize, pieceHashes⟩
              | _ => .error (str "pieceHashes count does not match file bytes")
    | _ => .error (str "files must be a non-empty array")

/-! ## What an accepted manifest has -/

structure Accepted (m : Manifest) : Prop where
  total : m.estimatedSizeBytes = totalSize m.files
  sizes : ∀ f ∈ m.files, 0 < f.size
  paths : (m.files.map CheckpointFile.path).Nodup
  pieceSize : 0 < m.pieceSize
  hashes : m.pieceHashes.length = pieceCount (totalSize m.files) m.pieceSize

theorem pos_of_positive {value : Json} {n : ℕ} (h : positive value = some n) : 0 < n := by
  unfold positive at h
  split at h
  · split_ifs at h with hi
    rw [← Option.some.inj h]
    omega
  · cases h

theorem of_parseFiles :
    ∀ {items : List Json} {index : ℕ} {seen : List Str} {files : List CheckpointFile},
      parseFiles index seen items = .ok files →
      (∀ f ∈ files, 0 < f.size) ∧ (files.map CheckpointFile.path).Nodup ∧
        ∀ f ∈ files, f.path ∉ seen
  | [], index, seen, files, h => by
    obtain rfl := Except.ok.inj h
    simp
  | item :: rest, index, seen, files, h => by
    unfold parseFiles at h
    split at h
    · cases h
    · split at h
      · cases h
      · split at h
        · cases h
        · rename_i size hsize
          split_ifs at h with hseen
          split at h
          · cases h
          · split at h
            · cases h
            · rename_i filePath _ _ _ _ _ files' hrest
              obtain rfl := Except.ok.inj h
              obtain ⟨hpos, hnodup, hfresh⟩ := of_parseFiles hrest
              refine ⟨?_, ?_, ?_⟩
              · rintro f (_ | ⟨_, hf⟩)
                · exact pos_of_positive hsize
                · exact hpos f hf
              · rw [List.map_cons, List.nodup_cons]
                refine ⟨fun hmem => ?_, hnodup⟩
                obtain ⟨f, hf, hpath⟩ := List.mem_map.mp hmem
                exact hfresh f hf (hpath ▸ List.mem_cons_self ..)
              · rintro f (_ | ⟨_, hf⟩)
                · exact hseen
                · exact fun hmem => hfresh f hf (List.mem_cons_of_mem _ hmem)

theorem length_parseHashes :
    ∀ {items : List Json} {index : ℕ} {hashes : List Str}, parseHashes index items = .ok hashes →
      hashes.length = items.length
  | [], index, hashes, h => by
    obtain rfl := Except.ok.inj h
    rfl
  | item :: rest, index, hashes, h => by
    unfold parseHashes at h
    split at h
    · cases h
    · split at h
      · cases h
      · rename_i hrest
        obtain rfl := Except.ok.inj h
        rw [List.length_cons, List.length_cons, length_parseHashes hrest]

/-- **What a manifest that is parsed has.** -/
theorem parse_accepted {raw : Json.Object} {m : Manifest} (h : parse raw = .ok m) : Accepted m := by
  unfold parse at h
  split at h
  · cases h
  · split at h
    · split at h
      · cases h
      · rename_i files hfiles
        split_ifs at h with htotal
        split at h
        · cases h
        · rename_i pieceSize hpieceSize
          split_ifs at h with hpower
          split at h
          · rename_i hashes hhashes
            split_ifs at h with hcount
            split at h
            · cases h
            · rename_i pieceHashes hparsed
              obtain rfl := Except.ok.inj h
              obtain ⟨hsizes, hpaths, -⟩ := of_parseFiles hfiles
              exact ⟨not_not.mp htotal, hsizes, hpaths, pos_of_positive hpieceSize,
                (length_parseHashes hparsed).trans (not_not.mp hcount)⟩
          · cases h
    · cases h

end AI2Apps.Checkpoints
