import AI2Apps.Lib.JsonText
import Mathlib.Data.List.Infix
import Mathlib.Data.List.TakeWhile
import Mathlib.Tactic.Tauto

/-!
# JSON texts as trees

A JSON text is a tree of tokens, strings, arrays and objects with whitespace between them.  The
tree has a text and a value, and the reader reads the value off the text, whatever follows it.

* `Body`: what stands between the quotation marks of a string, and what it says.
* `Doc`: a value as it is written; `Doc.text`, `Doc.value`.
* `Doc.objects`: the objects in it, in the order in which they begin.
* `scanValue_text`, `loads_text`: the text is read as the value.
-/

namespace AI2Apps.JsonText

/-! ## What stops a token -/

/-- No number goes on with the text. -/
def Stops (rest : Str) : Prop :=
  ∀ c, rest.head? = some c → isSpace c = true ∨ c = 44 ∨ c = 93 ∨ c = 125

/-- A character of a literal or of a number. -/
def tokenChar (c : ℕ) : Bool :=
  isDigit c || c = 43 || c = 45 || c = 46 || c = 73 || c = 78 || c = 69 || c = 97 || c = 101 ||
    c = 102 || c = 105 || c = 108 || c = 110 || c = 114 || c = 115 || c = 116 || c = 117 || c = 121

variable {s r rest : Str} {floats : FloatText} {c : ℕ} {v : Json}

theorem Stops.not_tokenChar (h : Stops rest) :
    ∀ c, rest.head? = some c → tokenChar c = false := by
  intro c hc
  rcases h c hc with hspace | rfl | rfl | rfl
  · simp only [isSpace, Bool.or_eq_true, decide_eq_true_eq] at hspace
    rcases hspace with ((rfl | rfl) | rfl) | rfl <;> decide
  all_goals decide

theorem Stops.isDigit (h : Stops rest) :
    ∀ c, rest.head? = some c → JsonText.isDigit c = false := by
  intro c hc
  have := h.not_tokenChar c hc
  simp only [tokenChar, Bool.or_eq_false_iff] at this
  tauto

theorem Stops.ne (h : Stops rest) {d : ℕ} (hd : tokenChar d = true) :
    ∀ c, rest.head? = some c → c ≠ d := by
  rintro c hc rfl
  rw [h.not_tokenChar c hc] at hd
  cases hd

theorem takeWhile_append_stop {p : ℕ → Bool} {rest : Str}
    (h : ∀ c, rest.head? = some c → p c = false) :
    ∀ s : Str, (s ++ rest).takeWhile p = s.takeWhile p ∧
      (s ++ rest).dropWhile p = s.dropWhile p ++ rest
  | [] => by
    cases rest with
    | nil => simp
    | cons c rest => simp [h c rfl]
  | c :: s => by
    obtain ⟨htake, hdrop⟩ := takeWhile_append_stop h s
    by_cases hc : p c = true
    · simp [hc, htake, hdrop]
    · simp [hc]

/-! ## Numbers -/

theorem scanInteger_append {ds : Str} (h : scanInteger s = some (ds, r)) (hstop : Stops rest) :
    scanInteger (s ++ rest) = some (ds, r ++ rest) := by
  cases s with
  | nil => cases h
  | cons c s =>
    obtain ⟨htake, hdrop⟩ := takeWhile_append_stop hstop.isDigit s
    rw [scanInteger] at h
    rw [List.cons_append, scanInteger]
    split_ifs at h ⊢
    · cases h
      rfl
    · cases h
      rw [htake, hdrop]

theorem scanFraction_append (s : Str) (hstop : Stops rest) :
    scanFraction (s ++ rest) = ((scanFraction s).1, (scanFraction s).2 ++ rest) := by
  have hother : ∀ s : Str, (∀ r, s ≠ 46 :: r) → scanFraction s = ([], s) := by
    intro s hs
    rw [scanFraction.eq_def]
    split
    · exact absurd rfl (hs _)
    · rfl
  by_cases hs : ∃ r, s = 46 :: r
  · obtain ⟨r, rfl⟩ := hs
    cases r with
    | nil =>
      cases rest with
      | nil => rfl
      | cons c rest =>
        have := hstop.isDigit c rfl
        simp [scanFraction, this]
    | cons c r =>
      obtain ⟨htake, hdrop⟩ := takeWhile_append_stop hstop.isDigit r
      rw [List.cons_append, List.cons_append, scanFraction, scanFraction]
      split_ifs
      · rw [htake, hdrop]
      · rfl
  · rw [hother s (fun r hr => hs ⟨r, hr⟩), hother]
    rintro r hr
    cases s with
    | nil => exact hstop.ne (d := 46) (by decide) 46 (by rw [← List.nil_append rest, hr]; rfl) rfl
    | cons c s =>
      rw [List.cons_append] at hr
      exact hs ⟨s, by rw [(List.cons.inj hr).1]⟩

theorem scanExponent_append (s : Str) (hstop : Stops rest) :
    scanExponent (s ++ rest) = ((scanExponent s).1, (scanExponent s).2 ++ rest) := by
  cases s with
  | nil =>
    cases rest with
    | nil => rfl
    | cons c rest =>
      have h101 := hstop.ne (d := 101) (by decide) c rfl
      have h69 := hstop.ne (d := 69) (by decide) c rfl
      simp [scanExponent, h101, h69]
  | cons e s =>
    have hsign : ∀ c, rest.head? = some c → (decide (c = 43) || decide (c = 45)) = false := by
      intro c hc
      have h43 := hstop.ne (d := 43) (by decide) c hc
      have h45 := hstop.ne (d := 45) (by decide) c hc
      simp [h43, h45]
    obtain ⟨htake, -⟩ := takeWhile_append_stop hsign s
    rw [List.cons_append, scanExponent, scanExponent]
    dsimp only
    rw [htake]
    generalize hsigns : (s.takeWhile fun c => decide (c = 43) || decide (c = 45)).take 1 = signs
    have hle : signs.length ≤ s.length := by
      rw [← hsigns, List.length_take]
      exact le_trans (min_le_right _ _) (List.takeWhile_sublist _).length_le
    rw [List.drop_append_of_le_length hle]
    obtain ⟨htake', hdrop'⟩ := takeWhile_append_stop hstop.isDigit (s.drop signs.length)
    rw [htake', hdrop']
    split_ifs <;> rfl

/-- The sign of a number, and what follows it. -/
def splitSign : Str → Str × Str
  | 45 :: r => ([45], r)
  | s => ([], s)

theorem splitSign_of_ne (h : ∀ r, s ≠ 45 :: r) : splitSign s = ([], s) := by
  rw [splitSign.eq_def]
  split
  · exact absurd rfl (h _)
  · rfl

theorem splitSign_append (h : s ≠ []) (rest : Str) :
    splitSign (s ++ rest) = ((splitSign s).1, (splitSign s).2 ++ rest) := by
  obtain ⟨c, s, rfl⟩ := List.exists_cons_of_ne_nil h
  by_cases hc : c = 45
  · subst hc
    rfl
  · have hne : ∀ t : Str, ∀ r, c :: t ≠ 45 :: r := fun t r hr => hc (List.cons.inj hr).1
    rw [splitSign_of_ne (hne s), List.cons_append, splitSign_of_ne (hne _)]

/-- The value of the parts of a number. -/
def numberOf (floats : FloatText) (sign digits fraction exponent : Str) : Json :=
  if fraction = [] ∧ exponent = [] then
    .int (if sign = [] then (ofDigits digits : ℤ) else -(ofDigits digits : ℤ))
  else .float (floats.parse (sign ++ digits ++ fraction ++ exponent))

theorem scanNumber_eq (floats : FloatText) (s : Str) :
    scanNumber floats s = (scanInteger (splitSign s).2).map fun p =>
      (numberOf floats (splitSign s).1 p.1 (scanFraction p.2).1
        (scanExponent (scanFraction p.2).2).1, (scanExponent (scanFraction p.2).2).2) := by
  by_cases hs : ∃ r, s = 45 :: r
  · obtain ⟨r, rfl⟩ := hs
    simp only [scanNumber, splitSign]
    cases scanInteger r with
    | none => rfl
    | some p =>
      simp only [Option.bind_eq_bind, Option.bind_some, Option.map_some, numberOf]
      split_ifs <;> rfl
  · have hne : ∀ r, s ≠ 45 :: r := fun r hr => hs ⟨r, hr⟩
    rw [splitSign_of_ne hne, scanNumber]
    · cases scanInteger s with
      | none => rfl
      | some p =>
        simp only [Option.bind_eq_bind, Option.bind_some, Option.map_some, numberOf]
        split_ifs <;> rfl
    · exact hne

theorem scanNumber_append (h : scanNumber floats s = some (v, r)) (hstop : Stops rest) :
    scanNumber floats (s ++ rest) = some (v, r ++ rest) := by
  rw [scanNumber_eq, Option.map_eq_some_iff] at h
  obtain ⟨⟨ds, t⟩, hscan, heq⟩ := h
  have hs : s ≠ [] := by
    rintro rfl
    cases hscan
  rw [scanNumber_eq, splitSign_append hs]
  dsimp only at heq ⊢
  rw [scanInteger_append hscan hstop, Option.map_some]
  dsimp only
  rw [scanFraction_append t hstop]
  dsimp only
  rw [scanExponent_append _ hstop]
  rw [Prod.mk.injEq] at heq
  rw [heq.1, heq.2]

/-! ## What a token takes -/

/-- The text is a part of token characters and the rest. -/
def Takes (s r : Str) : Prop :=
  ∃ t, s = t ++ r ∧ ∀ c ∈ t, tokenChar c = true

theorem Takes.refl (s : Str) : Takes s s :=
  ⟨[], rfl, by simp⟩

theorem Takes.trans {q : Str} (h : Takes s r) (h' : Takes r q) : Takes s q := by
  obtain ⟨t, rfl, ht⟩ := h
  obtain ⟨t', rfl, ht'⟩ := h'
  refine ⟨t ++ t', (List.append_assoc ..).symm, fun c hc => ?_⟩
  rcases List.mem_append.mp hc with hc | hc
  · exact ht c hc
  · exact ht' c hc

theorem Takes.cons (hc : tokenChar c = true) (h : Takes s r) :
    Takes (c :: s) r := by
  obtain ⟨t, rfl, ht⟩ := h
  exact ⟨c :: t, rfl, List.forall_mem_cons.mpr ⟨hc, ht⟩⟩

theorem tokenChar_of_isDigit (h : isDigit c = true) : tokenChar c = true := by
  simp [tokenChar, h]

theorem takes_dropWhile (s : Str) : Takes s (s.dropWhile isDigit) :=
  ⟨s.takeWhile isDigit, (List.takeWhile_append_dropWhile ..).symm,
    fun _ hc => tokenChar_of_isDigit (List.mem_takeWhile_imp hc)⟩

theorem takes_splitSign (s : Str) : Takes s (splitSign s).2 := by
  rw [splitSign.eq_def]
  split
  · exact (Takes.refl _).cons (by decide)
  · exact Takes.refl _

theorem scanInteger_takes {ds : Str} (h : scanInteger s = some (ds, r)) :
    Takes s r ∧ ∃ c t, s = c :: t ∧ isDigit c = true := by
  cases s with
  | nil => cases h
  | cons c s =>
    rw [scanInteger] at h
    split_ifs at h with h0 hd
    · subst h0
      cases h
      exact ⟨(Takes.refl _).cons (by decide), 48, _, rfl, by decide⟩
    · cases h
      exact ⟨(takes_dropWhile s).cons (tokenChar_of_isDigit hd), c, s, rfl, hd⟩

theorem scanFraction_takes (s : Str) : Takes s (scanFraction s).2 := by
  rw [scanFraction.eq_def]
  split
  · split_ifs with hd
    · exact ((takes_dropWhile _).cons (tokenChar_of_isDigit hd)).cons (by decide)
    · exact Takes.refl _
  · exact Takes.refl _

theorem scanExponent_takes (s : Str) : Takes s (scanExponent s).2 := by
  cases s with
  | nil => exact Takes.refl _
  | cons e s =>
    rw [scanExponent]
    split_ifs with he
    · dsimp only
      split_ifs with hdigits
      · exact Takes.refl _
      · have hsign : Takes s (s.drop ((s.takeWhile fun c => c = 43 || c = 45).take 1).length) := by
          refine ⟨(s.takeWhile fun c => c = 43 || c = 45).take 1, ?_, fun c hc => ?_⟩
          · exact List.prefix_append_drop ((List.take_prefix _ _).trans (List.takeWhile_prefix _))
          · have := List.mem_takeWhile_imp (List.mem_of_mem_take hc)
            simp only [Bool.or_eq_true, decide_eq_true_eq] at this
            rcases this with rfl | rfl <;> decide
        exact (hsign.trans (takes_dropWhile _)).cons (by rcases he with rfl | rfl <;> decide)
    · exact Takes.refl _

theorem scanNumber_takes (h : scanNumber floats s = some (v, r)) :
    Takes s r ∧ ∃ c t, isDigit c = true ∧ (s = c :: t ∨ s = 45 :: c :: t) := by
  rw [scanNumber_eq, Option.map_eq_some_iff] at h
  obtain ⟨⟨ds, t⟩, hscan, heq⟩ := h
  obtain ⟨htakes, c, u, hu, hc⟩ := scanInteger_takes hscan
  rw [Prod.mk.injEq] at heq
  refine ⟨?_, c, u, hc, ?_⟩
  · rw [← heq.2]
    exact (((takes_splitSign s).trans htakes).trans (scanFraction_takes t)).trans
      (scanExponent_takes _)
  · rw [splitSign.eq_def] at hu
    split at hu
    · exact .inr (by rw [← hu])
    · exact .inl hu

/-- The literals and their values. -/
def literals : List (Str × Json) :=
  [(str "null", .null), (str "true", .bool true), (str "false", .bool false),
    (str "NaN", .float .nan), (str "Infinity", .float .posInf), (str "-Infinity", .float .negInf)]

theorem literal?_eq (s : Str) :
    literal? s = (literals.find? fun p => p.1.isPrefixOf s).map fun p => (p.2, s.drop p.1.length) := by
  simp only [literal?, literals, List.find?_cons]
  cases (str "null").isPrefixOf s
  · cases (str "true").isPrefixOf s
    · cases (str "false").isPrefixOf s
      · cases (str "NaN").isPrefixOf s
        · cases (str "Infinity").isPrefixOf s
          · cases (str "-Infinity").isPrefixOf s <;> rfl
          · rfl
        · rfl
      · rfl
    · rfl
  · rfl

theorem literal?_takes (h : literal? s = some (v, r)) :
    Takes s r ∧ ∃ name, (name, v) ∈ literals ∧ s = name ++ r := by
  rw [literal?_eq, Option.map_eq_some_iff] at h
  obtain ⟨⟨name, w⟩, hfind, heq⟩ := h
  rw [Prod.mk.injEq] at heq
  obtain ⟨rfl, rfl⟩ := heq
  have hmem := List.mem_of_find?_eq_some hfind
  have hstarts := List.find?_some hfind
  obtain ⟨t, rfl⟩ := List.isPrefixOf_iff_prefix.mp hstarts
  dsimp only
  rw [List.drop_left]
  refine ⟨⟨name, rfl, ?_⟩, name, hmem, rfl⟩
  have hall : ∀ p ∈ literals, ∀ c ∈ p.1, tokenChar c = true := by decide
  exact hall _ hmem

/-! ## Tokens -/

/-- A literal or a number at the start of the text. -/
def scanToken (floats : FloatText) (s : Str) : Option (Json × Str) :=
  literal? s <|> scanNumber floats s

theorem scanToken_takes (h : scanToken floats s = some (v, r)) : Takes s r := by
  rw [scanToken, Option.orElse_eq_orElse, Option.orElse_eq_or, Option.or_eq_some_iff] at h
  rcases h with hliteral | ⟨-, hnumber⟩
  · exact (literal?_takes hliteral).1
  · exact (scanNumber_takes hnumber).1

/-- A literal starts with no digit, also after a minus sign. -/
theorem literal?_of_digit (hc : isDigit c = true) (s : Str) :
    literal? (c :: s) = none ∧ literal? (45 :: c :: s) = none := by
  have hhead : ∀ p ∈ literals, p.1 ≠ [] ∧ ∀ d ∈ p.1.head?, isDigit d = false := by decide
  have hsecond : ∀ p ∈ literals, ∀ d ∈ p.1[1]?, isDigit d = false ∨ p.1.head? ≠ some 45 := by decide
  have hlong : ∀ p ∈ literals, 2 ≤ p.1.length := by decide
  simp only [literal?_eq, Option.map_eq_none_iff, List.find?_eq_none]
  constructor <;> intro p hp hstarts
  · obtain ⟨t, ht⟩ := List.isPrefixOf_iff_prefix.mp hstarts
    obtain ⟨hne, hdigit⟩ := hhead p hp
    have hfirst : p.1.head? = some c := by
      rw [← @List.head?_append_of_ne_nil _ _ t hne, ht]
      rfl
    rw [hdigit c hfirst] at hc
    cases hc
  · obtain ⟨t, ht⟩ := List.isPrefixOf_iff_prefix.mp hstarts
    have hfirst : p.1.head? = some 45 := by
      rw [← @List.head?_append_of_ne_nil _ _ t (hhead p hp).1, ht]
      rfl
    have hnext : p.1[1]? = some c := by
      rw [← @List.getElem?_append_left _ _ t _ (hlong p hp), ht]
      rfl
    rcases hsecond p hp c hnext with hdigit | hminus
    · rw [hdigit] at hc
      cases hc
    · exact hminus hfirst

/-- A token that is read as a whole is read before whatever stops it. -/
theorem scanToken_append {t : Str} (h : scanToken floats t = some (v, [])) (hstop : Stops rest) :
    scanToken floats (t ++ rest) = some (v, rest) := by
  rw [scanToken, Option.orElse_eq_orElse, Option.orElse_eq_or, Option.or_eq_some_iff] at h ⊢
  rcases h with hliteral | ⟨-, hnumber⟩
  · obtain ⟨-, name, hname, rfl⟩ := literal?_takes hliteral
    left
    rw [List.append_nil] at hliteral ⊢
    simp only [literals, List.mem_cons, List.not_mem_nil, or_false, Prod.mk.injEq] at hname
    rcases hname with ⟨rfl, rfl⟩ | ⟨rfl, rfl⟩ | ⟨rfl, rfl⟩ | ⟨rfl, rfl⟩ | ⟨rfl, rfl⟩ | ⟨rfl, rfl⟩ <;> rfl
  · right
    refine ⟨?_, scanNumber_append hnumber hstop⟩
    obtain ⟨-, c, u, hc, rfl | rfl⟩ := scanNumber_takes hnumber
    · exact (literal?_of_digit hc _).1
    · exact (literal?_of_digit hc _).2

theorem head_of_scanToken (h : scanToken floats s = some (v, r)) :
    ∃ c t, s = c :: t ∧ tokenChar c = true := by
  rw [scanToken, Option.orElse_eq_orElse, Option.orElse_eq_or, Option.or_eq_some_iff] at h
  rcases h with hliteral | ⟨-, hnumber⟩
  · obtain ⟨-, name, hname, rfl⟩ := literal?_takes hliteral
    have hall : ∀ p ∈ literals, p.1 ≠ [] ∧ ∀ c ∈ p.1, tokenChar c = true := by decide
    obtain ⟨hne, hchars⟩ := hall _ hname
    obtain ⟨c, t, rfl⟩ := List.exists_cons_of_ne_nil hne
    exact ⟨c, t ++ r, rfl, hchars c (List.mem_cons_self ..)⟩
  · obtain ⟨-, c, t, hc, rfl | rfl⟩ := scanNumber_takes hnumber
    · exact ⟨c, t, rfl, tokenChar_of_isDigit hc⟩
    · exact ⟨45, c :: t, rfl, by decide⟩

/-! ## Strings -/

/-- What stands between the quotation marks of a string, and its units. -/
inductive Body : Str → List (ℕ × Bool) → Prop where
  | nil : Body [] []
  | char {c : ℕ} {b : Str} {u : List (ℕ × Bool)} : c ≠ 34 → c ≠ 92 → 32 ≤ c → Body b u →
      Body (c :: b) ((c, false) :: u)
  | escape {e c : ℕ} {b : Str} {u : List (ℕ × Bool)} : e ≠ 117 → unescape? e = some c → Body b u →
      Body (92 :: e :: b) ((c, false) :: u)
  | hex {w x y z c : ℕ} {b : Str} {u : List (ℕ × Bool)} : hex4? w x y z = some c → Body b u →
      Body (92 :: 117 :: w :: x :: y :: z :: b) ((c, true) :: u)

theorem scanUnits_plain (h34 : c ≠ 34) (h92 : c ≠ 92) (h32 : ¬ c < 32) (r : Str) :
    scanUnits (c :: r) = (scanUnits r).map fun p => ((c, false) :: p.1, p.2) := by
  rw [scanUnits.eq_def]
  simp only [h34, h92, h32, if_false]

theorem scanUnits_escape {e : ℕ} (h117 : e ≠ 117) (h : unescape? e = some c) (r : Str) :
    scanUnits (92 :: e :: r) = (scanUnits r).map fun p => ((c, false) :: p.1, p.2) := by
  rw [scanUnits.eq_def]
  simp [h117, h]

theorem scanUnits_hex {w x y z : ℕ} (h : hex4? w x y z = some c) (r : Str) :
    scanUnits (92 :: 117 :: w :: x :: y :: z :: r) =
      (scanUnits r).map fun p => ((c, true) :: p.1, p.2) := by
  rw [scanUnits.eq_def]
  simp [h]

theorem scanUnits_body {b : Str} {u : List (ℕ × Bool)} (h : Body b u) (r : Str) :
    scanUnits (b ++ 34 :: r) = some (u, r) := by
  induction h with
  | nil =>
    rw [List.nil_append, scanUnits.eq_def]
    exact if_pos rfl
  | char h34 h92 h32 _ ih =>
    rw [List.cons_append, scanUnits_plain h34 h92 (by omega), ih]
    rfl
  | escape h117 hescape _ ih =>
    rw [List.cons_append, List.cons_append, scanUnits_escape h117 hescape, ih]
    rfl
  | hex hhex _ ih =>
    simp only [List.cons_append]
    rw [scanUnits_hex hhex, ih]
    rfl

/-! ## Trees -/

/-- The label of a member: the key between its quotation marks, what it says, and the whitespace
before it, after it and after the colon. -/
structure Label where
  before : Str
  body : Str
  key : Str
  after : Str
  next : Str

mutual

/-- A value as it is written. -/
inductive Doc where
  | token (value : Json) (text : Str)
  | string (value body : Str)
  | emptyArray (space : Str)
  | array (items : Items)
  | emptyObject (space : Str)
  | object (members : Members)

/-- Items, each between whitespace, up to the closing bracket. -/
inductive Items where
  | last (before : Str) (item : Doc) (after : Str)
  | cons (before : Str) (item : Doc) (after : Str) (items : Items)

/-- Members, each with whitespace after it, up to the closing brace. -/
inductive Members where
  | last (label : Label) (value : Doc) (after : Str)
  | cons (label : Label) (value : Doc) (after : Str) (members : Members)

end

/-- A label without the whitespace before it. -/
def Label.text (l : Label) : Str :=
  34 :: l.body ++ 34 :: l.after ++ 58 :: l.next

mutual

def Doc.text : Doc → Str
  | .token _ text => text
  | .string _ body => 34 :: body ++ [34]
  | .emptyArray space => 91 :: space ++ [93]
  | .array items => 91 :: items.text
  | .emptyObject space => 123 :: space ++ [125]
  | .object members => 123 :: members.text

def Items.text : Items → Str
  | .last before item after => before ++ item.text ++ after ++ [93]
  | .cons before item after items => before ++ item.text ++ after ++ 44 :: items.text

def Members.text : Members → Str
  | .last label value after => label.before ++ label.text ++ value.text ++ after ++ [125]
  | .cons label value after members =>
    label.before ++ label.text ++ value.text ++ after ++ 44 :: members.text

end

mutual

def Doc.value : Doc → Json
  | .token value _ => value
  | .string value _ => .str value
  | .emptyArray _ => .arr []
  | .array items => .arr items.values
  | .emptyObject _ => .obj []
  | .object members => .obj (ofPairs members.pairs)

def Items.values : Items → List Json
  | .last _ item _ => [item.value]
  | .cons _ item _ items => item.value :: items.values

def Members.pairs : Members → List (Str × Json)
  | .last label value _ => [(label.key, value.value)]
  | .cons label value _ members => (label.key, value.value) :: members.pairs

end

mutual

/-- The objects in a value, in the order in which they begin. -/
def Doc.objects : Doc → List Json.Object
  | .token _ _ => []
  | .string _ _ => []
  | .emptyArray _ => []
  | .array items => items.objects
  | .emptyObject _ => [[]]
  | .object members => ofPairs members.pairs :: members.objects

def Items.objects : Items → List Json.Object
  | .last _ item _ => item.objects
  | .cons _ item _ items => item.objects ++ items.objects

def Members.objects : Members → List Json.Object
  | .last _ value _ => value.objects
  | .cons _ value _ members => value.objects ++ members.objects

end

/-- Whitespace of JSON. -/
def Blank (s : Str) : Prop :=
  ∀ c ∈ s, isSpace c = true

/-- What stands between the quotation marks spells the string. -/
def Spells (body value : Str) : Prop :=
  ∃ u, Body body u ∧ joinSurrogates u = value

/-- A text that is written in a string as it is. -/
def Plain (s : Str) : Prop :=
  ∀ c ∈ s, c ≠ 34 ∧ c ≠ 92 ∧ 32 ≤ c

instance (s : Str) : Decidable (Plain s) :=
  inferInstanceAs (Decidable (∀ c ∈ s, c ≠ 34 ∧ c ≠ 92 ∧ 32 ≤ c))

theorem body_plain : ∀ {s : Str}, Plain s → Body s (s.map fun c => (c, false))
  | [], _ => .nil
  | _ :: _, h =>
    have hc := (List.forall_mem_cons.mp h).1
    .char hc.1 hc.2.1 hc.2.2 (body_plain (List.forall_mem_cons.mp h).2)

/-- Units that are marked only for control characters are no surrogates. -/
theorem joinSurrogates_of_control {units : List (ℕ × Bool)}
    (h : ∀ p ∈ units, p.2 = true → p.1 < 32) : joinSurrogates units = units.map Prod.fst := by
  induction units with
  | nil => rfl
  | cons p units ih =>
    rw [List.forall_mem_cons] at h
    cases units with
    | nil => rfl
    | cons q rest =>
      have hpair : (p.2 && q.2 && isHigh p.1 && isLow q.1) = false := by
        rw [Bool.eq_false_iff]
        intro hall
        simp only [Bool.and_eq_true, isHigh, decide_eq_true_eq] at hall
        have hp := h.1 hall.1.1.1
        omega
      rw [joinSurrogates, hpair, if_neg Bool.false_ne_true, ih h.2]
      rfl

theorem spells_plain (h : Plain s) : Spells s s := by
  refine ⟨_, body_plain h, ?_⟩
  rw [joinSurrogates_of_control (by simp), List.map_map]
  exact List.map_id _

structure Label.Correct (l : Label) : Prop where
  before : Blank l.before
  spells : Spells l.body l.key
  after : Blank l.after
  next : Blank l.next

mutual

/-- The tree is JSON: its tokens and strings spell their values, and the rest is whitespace. -/
def Doc.Correct (floats : FloatText) : Doc → Prop
  | .token value text => scanToken floats text = some (value, [])
  | .string value body => Spells body value
  | .emptyArray space => Blank space
  | .array items => items.Correct floats
  | .emptyObject space => Blank space
  | .object members => members.Correct floats

def Items.Correct (floats : FloatText) : Items → Prop
  | .last before item after => Blank before ∧ item.Correct floats ∧ Blank after
  | .cons before item after items =>
    Blank before ∧ item.Correct floats ∧ Blank after ∧ items.Correct floats

def Members.Correct (floats : FloatText) : Members → Prop
  | .last label value after => label.Correct ∧ value.Correct floats ∧ Blank after
  | .cons label value after members =>
    label.Correct ∧ value.Correct floats ∧ Blank after ∧ members.Correct floats

end

/-! ## Reading a tree -/

theorem skipSpace_cons (h : isSpace c = false) : skipSpace (c :: r) = c :: r :=
  List.dropWhile_cons_of_neg (by simp [h])

theorem skipSpace_append (h : Blank s) (r : Str) : skipSpace (s ++ r) = skipSpace r := by
  induction s with
  | nil => rfl
  | cons c s ih =>
    rw [Blank, List.forall_mem_cons] at h
    rw [List.cons_append, skipSpace, List.dropWhile_cons, if_pos h.1]
    exact ih h.2

/-- The text begins with no whitespace and does not close anything. -/
def Opens (s : Str) : Prop :=
  ∃ c t, s = c :: t ∧ isSpace c = false ∧ c ≠ 93 ∧ c ≠ 125

theorem Opens.append (h : Opens s) (r : Str) : Opens (s ++ r) := by
  obtain ⟨c, t, rfl, hspace, h93, h125⟩ := h
  exact ⟨c, t ++ r, rfl, hspace, h93, h125⟩

theorem Opens.skipSpace (h : Opens s) : JsonText.skipSpace s = s := by
  obtain ⟨c, t, rfl, hspace, -, -⟩ := h
  exact skipSpace_cons hspace

/-- The text begins with a token, a quotation mark or an opening bracket. -/
theorem head_text {d : Doc} (h : d.Correct floats) :
    ∃ c t, d.text = c :: t ∧ (tokenChar c = true ∨ c = 34 ∨ c = 91 ∨ c = 123) := by
  cases d with
  | token value text =>
    obtain ⟨c, t, rfl, hc⟩ := head_of_scanToken h
    exact ⟨c, t, rfl, .inl hc⟩
  | string => exact ⟨34, _, rfl, .inr (.inl rfl)⟩
  | emptyArray => exact ⟨91, _, rfl, .inr (.inr (.inl rfl))⟩
  | array => exact ⟨91, _, rfl, .inr (.inr (.inl rfl))⟩
  | emptyObject => exact ⟨123, _, rfl, .inr (.inr (.inr rfl))⟩
  | object => exact ⟨123, _, rfl, .inr (.inr (.inr rfl))⟩

theorem opens_text {d : Doc} (h : d.Correct floats) : Opens d.text := by
  obtain ⟨c, t, htext, hc | rfl | rfl | rfl⟩ := head_text h
  · refine ⟨c, t, htext, ?_, ?_, ?_⟩
    · cases hspace : isSpace c with
      | false => rfl
      | true =>
        simp only [isSpace, Bool.or_eq_true, decide_eq_true_eq] at hspace
        rcases hspace with ((rfl | rfl) | rfl) | rfl <;> cases hc
    · rintro rfl
      cases hc
    · rintro rfl
      cases hc
  all_goals exact ⟨_, t, htext, by decide, by decide, by decide⟩

theorem opens_label (l : Label) : Opens l.text :=
  ⟨34, _, rfl, by decide, by decide, by decide⟩

theorem stops_space {after : Str} (h : Blank after) (hc : c = 44 ∨ c = 93 ∨ c = 125) (r : Str) :
    Stops (after ++ c :: r) := by
  intro d hd
  cases after with
  | nil =>
    simp only [List.nil_append, List.head?_cons, Option.some.injEq] at hd
    subst hd
    exact .inr hc
  | cons a after =>
    simp only [List.cons_append, List.head?_cons, Option.some.injEq] at hd
    subst hd
    exact .inl (h _ (List.mem_cons_self ..))

/-- Only a token needs something that stops it. -/
def Doc.IsToken : Doc → Prop
  | .token _ _ => True
  | _ => False

theorem scanValue_string {body value : Str} (h : Spells body value) (rest : Str) (fuel : ℕ) :
    scanValue floats (fuel + 1) (34 :: (body ++ 34 :: rest)) = some (.str value, rest) := by
  obtain ⟨u, hbody, rfl⟩ := h
  rw [scanValue, if_pos rfl, scanString, scanUnits_body hbody]
  rfl

theorem scanValue_array (h : Opens (skipSpace r)) (fuel : ℕ) :
    scanValue floats (fuel + 1) (91 :: r) =
      (scanItems floats fuel (skipSpace r)).map fun p => (.arr p.1, p.2) := by
  obtain ⟨c, t, hr, -, h93, -⟩ := h
  rw [scanValue, if_neg (by decide), if_neg (by decide), if_pos rfl, hr]
  split
  · next heq => exact absurd (List.cons.inj heq).1 h93
  · rfl

theorem scanValue_object (h : Opens (skipSpace r)) (fuel : ℕ) :
    scanValue floats (fuel + 1) (123 :: r) =
      (scanMembers floats fuel (skipSpace r)).map fun p => (.obj (ofPairs p.1), p.2) := by
  obtain ⟨c, t, hr, -, -, h125⟩ := h
  rw [scanValue, if_neg (by decide), if_pos rfl, hr]
  split
  · next heq => exact absurd (List.cons.inj heq).1 h125
  · rfl

theorem scanValue_token {text : Str} (h : scanToken floats text = some (v, [])) (hstop : Stops rest)
    (fuel : ℕ) :
    scanValue floats (fuel + 1) (text ++ rest) = some (v, rest) := by
  obtain ⟨c, t, rfl, hc⟩ := head_of_scanToken h
  have hne : c ≠ 34 ∧ c ≠ 123 ∧ c ≠ 91 := by
    refine ⟨?_, ?_, ?_⟩ <;> rintro rfl <;> cases hc
  have happend := scanToken_append h hstop
  rw [List.cons_append] at happend ⊢
  rw [scanValue, if_neg hne.1, if_neg hne.2.1, if_neg hne.2.2]
  exact happend

/-- The next item or the closing bracket after an item. -/
theorem skipSpace_after {after : Str} (h : Blank after) (hc : isSpace c = false) (r : Str) :
    skipSpace (after ++ c :: r) = c :: r := by
  rw [skipSpace_append h, skipSpace_cons hc]

theorem scanMembers_label {l : Label} (h : l.Correct) {value after : Str} {fuel : ℕ} (hopens : Opens value)
    (hafter : Blank after) (hc : isSpace c = false)
    (hvalue : scanValue floats fuel (value ++ (after ++ c :: r)) = some (v, after ++ c :: r)) :
    scanMembers floats (fuel + 1) (l.text ++ (value ++ (after ++ c :: r))) =
      match c :: r with
      | 125 :: r => some ([(l.key, v)], r)
      | 44 :: r => (scanMembers floats fuel (skipSpace r)).map fun p => ((l.key, v) :: p.1, p.2)
      | _ => none := by
  obtain ⟨u, hbody, hkey⟩ := h.spells
  have htext : l.text ++ (value ++ (after ++ c :: r)) =
      34 :: (l.body ++ 34 :: (l.after ++ 58 :: (l.next ++ (value ++ (after ++ c :: r))))) := by
    simp [Label.text]
  have hcolon := skipSpace_after h.after (c := 58) (by decide) (l.next ++ (value ++ (after ++ c :: r)))
  have hnext := skipSpace_append h.next (value ++ (after ++ c :: r))
  rw [(hopens.append _).skipSpace] at hnext
  rw [htext, scanMembers, if_pos rfl, scanString, scanUnits_body hbody, Option.map_some]
  dsimp only
  rw [hcolon]
  split
  · next r' heq =>
    rw [← (List.cons.inj heq).2, hnext, hvalue, hkey]
    dsimp only
    rw [skipSpace_after hafter hc]
    all_goals rfl
  · next hne => exact absurd rfl (hne _)

mutual

/-- The text of a tree is read as its value, whatever follows it. -/
theorem scanValue_text {floats : FloatText} : ∀ {d : Doc}, d.Correct floats →
    ∀ {rest : Str}, (d.IsToken → Stops rest) → ∀ {fuel : ℕ}, d.text.length ≤ fuel →
      scanValue floats fuel (d.text ++ rest) = some (d.value, rest)
  | .token value text, h, rest, hstop, fuel, hfuel => by
    obtain ⟨c, t, htext, -⟩ := head_of_scanToken h
    obtain ⟨fuel, rfl⟩ : ∃ f, fuel = f + 1 := by
      refine ⟨fuel - 1, ?_⟩
      simp [Doc.text, htext] at hfuel
      omega
    exact scanValue_token h (hstop trivial) fuel
  | .string value body, h, rest, _, fuel, hfuel => by
    obtain ⟨fuel, rfl⟩ : ∃ f, fuel = f + 1 := ⟨fuel - 1, by simp [Doc.text] at hfuel; omega⟩
    rw [show (Doc.string value body).text ++ rest = 34 :: (body ++ 34 :: rest) by simp [Doc.text]]
    exact scanValue_string h rest fuel
  | .emptyArray space, h, rest, _, fuel, hfuel => by
    obtain ⟨fuel, rfl⟩ : ∃ f, fuel = f + 1 := ⟨fuel - 1, by simp [Doc.text] at hfuel; omega⟩
    have hskip := skipSpace_after h (c := 93) (by decide) rest
    have htext : (Doc.emptyArray space).text ++ rest = 91 :: (space ++ 93 :: rest) := by simp [Doc.text]
    rw [htext, scanValue, if_neg (by decide), if_neg (by decide), if_pos rfl, hskip]
    rfl
  | .array items, h, rest, _, fuel, hfuel => by
    obtain ⟨fuel, rfl⟩ : ∃ f, fuel = f + 1 := ⟨fuel - 1, by simp [Doc.text] at hfuel; omega⟩
    obtain ⟨hopens, hscan⟩ := @scanItems_text floats items h rest fuel
      (by simp [Doc.text] at hfuel; omega)
    rw [show (Doc.array items).text ++ rest = 91 :: (items.text ++ rest) by simp [Doc.text],
      scanValue_array hopens, hscan]
    rfl
  | .emptyObject space, h, rest, _, fuel, hfuel => by
    obtain ⟨fuel, rfl⟩ : ∃ f, fuel = f + 1 := ⟨fuel - 1, by simp [Doc.text] at hfuel; omega⟩
    have hskip := skipSpace_after h (c := 125) (by decide) rest
    have htext : (Doc.emptyObject space).text ++ rest = 123 :: (space ++ 125 :: rest) := by
      simp [Doc.text]
    rw [htext, scanValue, if_neg (by decide), if_pos rfl, hskip]
    rfl
  | .object members, h, rest, _, fuel, hfuel => by
    obtain ⟨fuel, rfl⟩ : ∃ f, fuel = f + 1 := ⟨fuel - 1, by simp [Doc.text] at hfuel; omega⟩
    obtain ⟨hopens, hscan⟩ := @scanMembers_text floats members h rest fuel
      (by simp [Doc.text] at hfuel; omega)
    rw [show (Doc.object members).text ++ rest = 123 :: (members.text ++ rest) by simp [Doc.text],
      scanValue_object hopens, hscan]
    rfl

theorem scanItems_text {floats : FloatText} : ∀ {items : Items}, items.Correct floats →
    ∀ {rest : Str} {fuel : ℕ}, items.text.length ≤ fuel → Opens (skipSpace (items.text ++ rest)) ∧
      scanItems floats fuel (skipSpace (items.text ++ rest)) = some (items.values, rest)
  | .last before item after, h, rest, fuel, hfuel => by
    obtain ⟨hbefore, hitem, hafter⟩ := h
    obtain ⟨fuel, rfl⟩ : ∃ f, fuel = f + 1 := ⟨fuel - 1, by simp [Items.text] at hfuel; omega⟩
    have hskip : skipSpace ((Items.last before item after).text ++ rest) =
        item.text ++ (after ++ 93 :: rest) := by
      rw [show (Items.last before item after).text ++ rest =
        before ++ (item.text ++ (after ++ 93 :: rest)) by simp [Items.text], skipSpace_append hbefore,
        ((opens_text hitem).append _).skipSpace]
    rw [hskip, scanItems, scanValue_text hitem
      (fun _ => stops_space hafter (.inr (.inl rfl)) rest) (by simp [Items.text] at hfuel; omega)]
    dsimp only
    rw [skipSpace_after hafter (by decide)]
    exact ⟨(opens_text hitem).append _, rfl⟩
  | .cons before item after items, h, rest, fuel, hfuel => by
    obtain ⟨hbefore, hitem, hafter, hitems⟩ := h
    obtain ⟨fuel, rfl⟩ : ∃ f, fuel = f + 1 := ⟨fuel - 1, by simp [Items.text] at hfuel; omega⟩
    have hskip : skipSpace ((Items.cons before item after items).text ++ rest) =
        item.text ++ (after ++ 44 :: (items.text ++ rest)) := by
      rw [show (Items.cons before item after items).text ++ rest =
        before ++ (item.text ++ (after ++ 44 :: (items.text ++ rest))) by simp [Items.text],
        skipSpace_append hbefore, ((opens_text hitem).append _).skipSpace]
    obtain ⟨-, hscan⟩ := @scanItems_text floats items hitems rest fuel
      (by simp [Items.text] at hfuel; omega)
    rw [hskip, scanItems, scanValue_text hitem
      (fun _ => stops_space hafter (.inl rfl) (items.text ++ rest))
      (by simp [Items.text] at hfuel; omega)]
    dsimp only
    rw [skipSpace_after hafter (by decide)]
    refine ⟨(opens_text hitem).append _, ?_⟩
    split
    · next heq => cases heq
    · next r' heq =>
      rw [← (List.cons.inj heq).2, hscan]
      rfl
    · next hne => exact absurd rfl (hne _)

theorem scanMembers_text {floats : FloatText} : ∀ {members : Members}, members.Correct floats →
    ∀ {rest : Str} {fuel : ℕ}, members.text.length ≤ fuel → Opens (skipSpace (members.text ++ rest)) ∧
      scanMembers floats fuel (skipSpace (members.text ++ rest)) = some (members.pairs, rest)
  | .last label value after, h, rest, fuel, hfuel => by
    obtain ⟨hlabel, hvalue, hafter⟩ := h
    obtain ⟨fuel, rfl⟩ : ∃ f, fuel = f + 1 := ⟨fuel - 1, by simp [Members.text] at hfuel; omega⟩
    have hskip : skipSpace ((Members.last label value after).text ++ rest) =
        label.text ++ (value.text ++ (after ++ 125 :: rest)) := by
      rw [show (Members.last label value after).text ++ rest =
        label.before ++ (label.text ++ (value.text ++ (after ++ 125 :: rest))) by simp [Members.text],
        skipSpace_append hlabel.before, ((opens_label label).append _).skipSpace]
    rw [hskip, scanMembers_label hlabel (opens_text hvalue) hafter (by decide) (scanValue_text hvalue
      (fun _ => stops_space hafter (.inr (.inr rfl)) rest) (by simp [Members.text] at hfuel; omega))]
    exact ⟨(opens_label label).append _, rfl⟩
  | .cons label value after members, h, rest, fuel, hfuel => by
    obtain ⟨hlabel, hvalue, hafter, hmembers⟩ := h
    obtain ⟨fuel, rfl⟩ : ∃ f, fuel = f + 1 := ⟨fuel - 1, by simp [Members.text] at hfuel; omega⟩
    have hskip : skipSpace ((Members.cons label value after members).text ++ rest) =
        label.text ++ (value.text ++ (after ++ 44 :: (members.text ++ rest))) := by
      rw [show (Members.cons label value after members).text ++ rest =
        label.before ++ (label.text ++ (value.text ++ (after ++ 44 :: (members.text ++ rest)))) by
          simp [Members.text],
        skipSpace_append hlabel.before, ((opens_label label).append _).skipSpace]
    obtain ⟨-, hscan⟩ := @scanMembers_text floats members hmembers rest fuel
      (by simp [Members.text] at hfuel; omega)
    rw [hskip, scanMembers_label hlabel (opens_text hvalue) hafter (by decide) (scanValue_text hvalue
      (fun _ => stops_space hafter (.inl rfl) (members.text ++ rest))
      (by simp [Members.text] at hfuel; omega))]
    refine ⟨(opens_label label).append _, ?_⟩
    split
    · next heq => cases heq
    · next r' heq =>
      rw [← (List.cons.inj heq).2, hscan]
      rfl
    · next hne => exact absurd rfl (hne _)

end

/-- **A tree that is JSON is read from its text.** -/
theorem loads_text {d : Doc} (h : d.Correct floats) :
    loads floats d.text = some d.value := by
  have hscan := scanValue_text h (fun _ => show Stops [] from nofun) le_rfl
  rw [List.append_nil] at hscan
  obtain ⟨c, t, htext, hc⟩ := head_text h
  have hbom : d.text.head? ≠ some 0xFEFF := by
    rw [htext, List.head?_cons]
    rintro ⟨⟩
    rcases hc with hc | hc | hc | hc <;> cases hc
  rw [loads, if_neg hbom, (opens_text h).skipSpace, hscan]
  rfl

end AI2Apps.JsonText
