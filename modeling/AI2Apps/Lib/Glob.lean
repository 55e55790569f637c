import AI2Apps.Lib.TextOrder

/-!
# Shell patterns

`fnmatch.fnmatchcase` of the modelled language: `*` for any text, `?` for one
character, `[...]` for one of a class, everything else for itself.  A class is
read as the standard library reads it: hyphens inside it make ranges, a range
whose ends are out of order is dropped together with them, and an opening `[`
without its `]` is a plain character.

* `fnmatchcase`: whether a text matches a pattern.
-/

namespace AI2Apps.Glob

/-- One piece of a pattern. -/
inductive Piece where
  | star
  | any
  | never
  | lit (c : ℕ)
  | cls (negated : Bool) (chars : Str) (ranges : List (ℕ × ℕ))
  deriving DecidableEq

/-- Whether a piece other than `*` accepts a character. -/
def Piece.accepts : Piece → ℕ → Bool
  | .star, _ => false
  | .any, _ => true
  | .never, _ => false
  | .lit c, d => c = d
  | .cls negated chars ranges, d =>
    negated != (decide (d ∈ chars) || ranges.any fun r => r.1 ≤ d && d ≤ r.2)

/-! ## Character classes -/

/-- The parts of a class between the hyphens that make ranges; the first part has at
least `least` characters, every other at least two, so that a hyphen at either end
of the class is a plain character. -/
def chunksFrom : ℕ → ℕ → Str → List Str
  | 0, _, s => [s]
  | fuel + 1, least, s =>
    match (s.drop least).findIdx? fun c => c = 45 with
    | none => [s]
    | some k =>
      let cut := least + k
      match s.drop (cut + 1) with
      | [] => [s]
      | rest => s.take cut :: chunksFrom fuel 2 rest

/-- A range whose ends are out of order goes, and its ends with it. -/
def dropEmptyRanges : List Str → List Str
  | [] => []
  | chunk :: rest =>
    match dropEmptyRanges rest with
    | [] => [chunk]
    | next :: others =>
      if next.headD 0 < chunk.getLastD 0 then (chunk.dropLast ++ next.tail) :: others
      else chunk :: next :: others

/-- The ranges between consecutive parts. -/
def rangesOf : List Str → List (ℕ × ℕ)
  | chunk :: next :: rest => (chunk.getLastD 0, next.headD 0) :: rangesOf (next :: rest)
  | _ => []

/-- The class with the given body. -/
def classPiece (body : Str) : Piece :=
  let least := if body.head? = some 33 then 2 else 1
  match dropEmptyRanges (chunksFrom body.length least body) with
  | [] => .never
  | [[]] => .never
  | [[33]] => .any
  | (33 :: chunk) :: rest => .cls true (chunk ++ rest.flatten) (rangesOf (chunk :: rest))
  | chunks => .cls false chunks.flatten (rangesOf chunks)

/-- The body of a class that opens here, and what follows its `]`: the first
character, or the one after `!`, does not close it. -/
def classBody? (s : Str) : Option (Str × Str) :=
  let bang := if s.head? = some 33 then 1 else 0
  let start := if (s.drop bang).head? = some 93 then bang + 1 else bang
  ((s.drop start).findIdx? fun c => c = 93).map fun k =>
    (s.take (start + k), s.drop (start + k + 1))

/-! ## Matching -/

/-- `fnmatch.translate`. -/
def translate : ℕ → Str → List Piece
  | 0, _ => []
  | _, [] => []
  | fuel + 1, c :: rest =>
    if c = 42 then .star :: translate fuel rest
    else if c = 63 then .any :: translate fuel rest
    else if c = 91 then
      match classBody? rest with
      | none => .lit 91 :: translate fuel rest
      | some (body, after) => classPiece body :: translate fuel after
    else .lit c :: translate fuel rest

/-- Some suffix of the text satisfies the test. -/
def anySuffix (test : Str → Bool) : Str → Bool
  | [] => test []
  | c :: rest => test (c :: rest) || anySuffix test rest

def matchesAll : List Piece → Str → Bool
  | [], s => s.isEmpty
  | .star :: pieces, s => anySuffix (matchesAll pieces) s
  | piece :: pieces, s =>
    match s with
    | [] => false
    | c :: rest => piece.accepts c && matchesAll pieces rest

/-- `fnmatch.fnmatchcase(name, pattern)`. -/
def fnmatchcase (name pattern : Str) : Bool := matchesAll (translate pattern.length pattern) name

end AI2Apps.Glob
