import AI2Apps.Lib.Json

/-!
# JSON text

`dumps` writes a value without spaces and without escaping what is not ASCII, and
`loads` is the reader of the modelled language: whitespace between tokens, control
characters refused inside strings, escapes with surrogate pairs joined, integers
apart from floats, the last of repeated members winning.  How a float is written
and read is a parameter (`FloatText`).

* `dumps`: the text of a value.
* `scanValue`, `loads`: the value at the start of a text, and of a whole text.
-/

namespace AI2Apps

/-- The text of a float, and the float of a text. -/
structure FloatText where
  repr : FloatVal → Str
  parse : Str → FloatVal

namespace JsonText

/-! ## Writing -/

def hexDigit (d : ℕ) : ℕ := if d < 10 then 48 + d else 87 + d

/-- The escape of a code point inside a string. -/
def escapeChar (c : ℕ) : Str :=
  if c = 34 ∨ c = 92 then [92, c]
  else if c = 10 then [92, 110]
  else if c = 13 then [92, 114]
  else if c = 9 then [92, 116]
  else if c = 12 then [92, 102]
  else if c = 8 then [92, 98]
  else if c < 32 then [92, 117, 48, 48, hexDigit (c / 16), hexDigit (c % 16)]
  else [c]

/-- A string between its quotation marks. -/
def quote (s : Str) : Str := 34 :: s.flatMap escapeChar ++ [34]

/-- The decimal digits of a number, before `acc`. -/
def digitsBefore : ℕ → ℕ → Str → Str
  | 0, _, acc => acc
  | fuel + 1, n, acc =>
    if n < 10 then (48 + n) :: acc else digitsBefore fuel (n / 10) ((48 + n % 10) :: acc)

def natText (n : ℕ) : Str := digitsBefore (n + 1) n []

def intText (i : ℤ) : Str := if i < 0 then 45 :: natText i.natAbs else natText i.natAbs

mutual

/-- `json.dumps(value, ensure_ascii=False, separators=(",", ":"))`. -/
def dumps (floats : FloatText) : Json → Str
  | .null => str "null"
  | .bool true => str "true"
  | .bool false => str "false"
  | .int i => intText i
  | .float f => floats.repr f
  | .str s => quote s
  | .arr [] => str "[]"
  | .arr (v :: items) => 91 :: dumps floats v ++ dumpsItems floats items
  | .obj [] => str "\x7b\x7d"
  | .obj ((k, v) :: members) =>
    123 :: quote k ++ 58 :: dumps floats v ++ dumpsMembers floats members

/-- The items after the first. -/
def dumpsItems (floats : FloatText) : List Json → Str
  | [] => [93]
  | v :: items => 44 :: dumps floats v ++ dumpsItems floats items

/-- The members after the first. -/
def dumpsMembers (floats : FloatText) : List (Str × Json) → Str
  | [] => [125]
  | (k, v) :: members => 44 :: quote k ++ 58 :: dumps floats v ++ dumpsMembers floats members

end

/-! ## Reading -/

def isSpace (c : ℕ) : Bool := c = 32 || c = 9 || c = 10 || c = 13

def skipSpace (s : Str) : Str := s.dropWhile isSpace

def hexValue? (c : ℕ) : Option ℕ :=
  if 48 ≤ c ∧ c ≤ 57 then some (c - 48)
  else if 97 ≤ c ∧ c ≤ 102 then some (c - 87)
  else if 65 ≤ c ∧ c ≤ 70 then some (c - 55)
  else none

/-- The code unit of four hexadecimal digits. -/
def hex4? (a b c d : ℕ) : Option ℕ := do
  let a ← hexValue? a
  let b ← hexValue? b
  let c ← hexValue? c
  let d ← hexValue? d
  return ((a * 16 + b) * 16 + c) * 16 + d

/-- The code point of an escape of one character. -/
def unescape? (c : ℕ) : Option ℕ :=
  if c = 34 ∨ c = 92 ∨ c = 47 then some c
  else if c = 98 then some 8
  else if c = 102 then some 12
  else if c = 110 then some 10
  else if c = 114 then some 13
  else if c = 116 then some 9
  else none

/-- The units of a string after its opening quotation mark, and what follows it.
A unit written as `\uXXXX` is marked, because two of them can be one code point. -/
def scanUnits : Str → Option (List (ℕ × Bool) × Str)
  | [] => none
  | c :: r =>
    if c = 34 then some ([], r)
    else if c = 92 then
      match r with
      | [] => none
      | e :: r =>
        if e = 117 then
          match r with
          | a :: b :: c :: d :: r =>
            match hex4? a b c d with
            | none => none
            | some u => (scanUnits r).map fun p => ((u, true) :: p.1, p.2)
          | _ => none
        else
          match unescape? e with
          | none => none
          | some c => (scanUnits r).map fun p => ((c, false) :: p.1, p.2)
    else if c < 32 then none
    else (scanUnits r).map fun p => ((c, false) :: p.1, p.2)

def isHigh (u : ℕ) : Bool := 0xD800 ≤ u && u < 0xDC00

def isLow (u : ℕ) : Bool := 0xDC00 ≤ u && u < 0xE000

/-- Marked units that are a surrogate pair are one code point. -/
def joinSurrogates : List (ℕ × Bool) → Str
  | [] => []
  | [p] => [p.1]
  | p :: q :: rest =>
    if p.2 && q.2 && isHigh p.1 && isLow q.1 then
      (0x10000 + (p.1 - 0xD800) * 1024 + (q.1 - 0xDC00)) :: joinSurrogates rest
    else p.1 :: joinSurrogates (q :: rest)

/-- A string after its opening quotation mark: its code points and what follows. -/
def scanString (s : Str) : Option (Str × Str) :=
  (scanUnits s).map fun p => (joinSurrogates p.1, p.2)

def isDigit (c : ℕ) : Bool := 48 ≤ c && c ≤ 57

/-- The value of a run of decimal digits. -/
def ofDigits (s : Str) : ℕ := s.foldl (fun n c => n * 10 + (c - 48)) 0

/-- The digits of the integer part: a zero, or a run that does not start with one. -/
def scanInteger : Str → Option (Str × Str)
  | [] => none
  | c :: r =>
    if c = 48 then some ([c], r)
    else if isDigit c then some (c :: r.takeWhile isDigit, r.dropWhile isDigit)
    else none

/-- The fraction, where there is one. -/
def scanFraction : Str → Str × Str
  | 46 :: c :: r =>
    if isDigit c then (46 :: c :: r.takeWhile isDigit, r.dropWhile isDigit) else ([], 46 :: c :: r)
  | s => ([], s)

/-- The exponent, where there is one. -/
def scanExponent : Str → Str × Str
  | [] => ([], [])
  | e :: r =>
    if e = 101 ∨ e = 69 then
      let sign := r.takeWhile (fun c => c = 43 || c = 45) |>.take 1
      let digits := (r.drop sign.length).takeWhile isDigit
      if digits = [] then ([], e :: r)
      else (e :: sign ++ digits, (r.drop sign.length).dropWhile isDigit)
    else ([], e :: r)

def scanNumber (floats : FloatText) (s : Str) : Option (Json × Str) := do
  let (sign, s) := match s with
    | 45 :: r => ([45], r)
    | s => ([], s)
  let (digits, r) ← scanInteger s
  let (fraction, r) := scanFraction r
  let (exponent, r) := scanExponent r
  if fraction = [] ∧ exponent = [] then
    some (.int (if sign = [] then (ofDigits digits : ℤ) else -(ofDigits digits : ℤ)), r)
  else some (.float (floats.parse (sign ++ digits ++ fraction ++ exponent)), r)

/-- A literal at the start of the text. -/
def literal? (s : Str) : Option (Json × Str) :=
  let at? (name : String) (v : Json) : Option (Json × Str) :=
    if (str name).isPrefixOf s then some (v, s.drop (str name).length) else none
  at? "null" .null <|> at? "true" (.bool true) <|> at? "false" (.bool false) <|>
    at? "NaN" (.float .nan) <|> at? "Infinity" (.float .posInf) <|>
    at? "-Infinity" (.float .negInf)

/-- A member is set: at its key's first place, with its last value. -/
def setMember (k : Str) (v : Json) : Json.Object → Json.Object
  | [] => [(k, v)]
  | (k', w) :: rest => if k' = k then (k, v) :: rest else (k', w) :: setMember k v rest

theorem lookup_setMember_self (k : Str) (v : Json) (o : Json.Object) :
    Json.lookup k (setMember k v o) = some v := by
  induction o with
  | nil => exact if_pos rfl
  | cons member rest ih =>
    obtain ⟨key, w⟩ := member
    unfold setMember
    split
    · exact if_pos rfl
    · rename_i hkey
      rw [Json.lookup, if_neg hkey, ih]

theorem lookup_setMember_of_ne {k k' : Str} (h : k ≠ k') (v : Json) (o : Json.Object) :
    Json.lookup k' (setMember k v o) = Json.lookup k' o := by
  induction o with
  | nil => exact if_neg h
  | cons member rest ih =>
    obtain ⟨key, w⟩ := member
    unfold setMember
    split
    · rename_i hkey
      subst hkey
      rw [Json.lookup, Json.lookup, if_neg h, if_neg h]
    · rw [Json.lookup, Json.lookup, ih]

/-- `dict(pairs)`. -/
def ofPairs (pairs : List (Str × Json)) : Json.Object :=
  pairs.foldl (fun o p => setMember p.1 p.2 o) []

mutual

/-- A value at the start of the text, and what follows it. -/
def scanValue (floats : FloatText) : ℕ → Str → Option (Json × Str)
  | 0, _ => none
  | _ + 1, [] => none
  | fuel + 1, c :: r =>
    if c = 34 then (scanString r).map fun p => (.str p.1, p.2)
    else if c = 123 then
      match skipSpace r with
      | 125 :: r => some (.obj [], r)
      | r => (scanMembers floats fuel r).map fun p => (.obj (ofPairs p.1), p.2)
    else if c = 91 then
      match skipSpace r with
      | 93 :: r => some (.arr [], r)
      | r => (scanItems floats fuel r).map fun p => (.arr p.1, p.2)
    else literal? (c :: r) <|> scanNumber floats (c :: r)

/-- The items of an array up to its closing bracket. -/
def scanItems (floats : FloatText) : ℕ → Str → Option (List Json × Str)
  | 0, _ => none
  | fuel + 1, s =>
    match scanValue floats fuel s with
    | none => none
    | some (v, r) =>
      match skipSpace r with
      | 93 :: r => some ([v], r)
      | 44 :: r => (scanItems floats fuel (skipSpace r)).map fun p => (v :: p.1, p.2)
      | _ => none

/-- The members of an object up to its closing brace. -/
def scanMembers (floats : FloatText) : ℕ → Str → Option (List (Str × Json) × Str)
  | 0, _ => none
  | _ + 1, [] => none
  | fuel + 1, c :: r =>
    if c = 34 then
      match scanString r with
      | none => none
      | some (k, r) =>
        match skipSpace r with
        | 58 :: r =>
          match scanValue floats fuel (skipSpace r) with
          | none => none
          | some (v, r) =>
            match skipSpace r with
            | 125 :: r => some ([(k, v)], r)
            | 44 :: r => (scanMembers floats fuel (skipSpace r)).map fun p => ((k, v) :: p.1, p.2)
            | _ => none
        | _ => none
    else none

end

/-- `json.loads(text)`. -/
def loads (floats : FloatText) (text : Str) : Option Json :=
  if text.head? = some 0xFEFF then none
  else
    match scanValue floats text.length (skipSpace text) with
    | none => none
    | some (v, r) => if skipSpace r = [] then some v else none

end JsonText

end AI2Apps
