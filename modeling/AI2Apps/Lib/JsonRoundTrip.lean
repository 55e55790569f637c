import AI2Apps.Lib.JsonDocs

/-!
# Written JSON is read back

What `dumps` writes, `loads` reads, for values without floats whose objects have
no key twice (`Json.plain`); floats are left out because their text is a
parameter.  What is written is the text of a tree without whitespace.

* `spells_escaped`, `scanToken_intText`: strings and integers are read back.
* `written`: the tree of a value.
* `loads_dumps`: the round trip.
* `le_of_mem_dumps`: written text contains no control character.
-/

namespace AI2Apps

namespace Json

mutual

/-- No float anywhere, and no key twice in an object. -/
def plain : Json → Bool
  | .float _ => false
  | .arr items => plainItems items
  | .obj members => plainMembers members
  | _ => true

def plainItems : List Json → Bool
  | [] => true
  | v :: items => plain v && plainItems items

def plainMembers : List (Str × Json) → Bool
  | [] => true
  | (k, v) :: members => decide (k ∉ keys members) && plain v && plainMembers members

end

theorem keys_nodup_of_plain {o : Object} (h : plainMembers o = true) : (keys o).Nodup := by
  induction o with
  | nil => exact List.nodup_nil
  | cons p o ih =>
    simp only [plainMembers, Bool.and_eq_true, decide_eq_true_eq] at h
    exact List.nodup_cons.mpr ⟨h.1.1, ih h.2⟩

theorem mem_keys {o : Object} {k : Str} {v : Json} (h : (k, v) ∈ o) : k ∈ keys o :=
  List.mem_map.mpr ⟨(k, v), h, rfl⟩

/-- Where no key is twice, a member is found under its key. -/
theorem lookup_of_mem {o : Object} (hnodup : (keys o).Nodup) {k : Str} {v : Json}
    (h : (k, v) ∈ o) : lookup k o = some v := by
  induction o with
  | nil => exact absurd h List.not_mem_nil
  | cons p o ih =>
    obtain ⟨k', w⟩ := p
    obtain ⟨hk', ho⟩ := List.nodup_cons.mp hnodup
    rw [lookup]
    rcases List.mem_cons.mp h with heq | hmem
    · cases heq
      rw [if_pos rfl]
    · rw [if_neg (by rintro rfl; exact hk' (mem_keys hmem)), ih ho hmem]

/-- An object with distinct keys is plain when what it looks up is. -/
theorem mem_of_lookup {o : Object} {k : Str} {v : Json} (h : lookup k o = some v) : (k, v) ∈ o := by
  induction o with
  | nil => exact absurd h.symm (Option.some_ne_none _)
  | cons p o ih =>
    rw [lookup] at h
    split_ifs at h with hk
    · obtain rfl := Option.some.inj h
      exact hk ▸ List.mem_cons_self
    · exact List.mem_cons_of_mem _ (ih h)

theorem lookup_eq_none_iff {o : Object} {k : Str} : lookup k o = none ↔ k ∉ keys o := by
  induction o with
  | nil => simp [lookup, keys]
  | cons p o ih =>
    rw [lookup, keys, List.map_cons, List.mem_cons, not_or, eq_comm (a := k)]
    split_ifs with hk
    · simp [hk]
    · rw [ih]
      exact ⟨fun h => ⟨hk, h⟩, fun h => h.2⟩

theorem plain_obj_of_lookup {o : Object} (hnodup : (keys o).Nodup)
    (h : ∀ k ∈ keys o, ∀ v, lookup k o = some v → v.plain = true) : (obj o).plain = true := by
  have hmembers : ∀ o' : Object, (keys o').Nodup → (∀ p ∈ o', p.2.plain = true) →
      plainMembers o' = true := by
    intro o' hnodup' hall
    induction o' with
    | nil => rfl
    | cons p o' ih =>
      obtain ⟨hk, ho⟩ := List.nodup_cons.mp hnodup'
      rw [List.forall_mem_cons] at hall
      rw [plainMembers, hall.1, ih ho hall.2, Bool.and_true, Bool.and_true]
      exact decide_eq_true hk
  rw [plain]
  exact hmembers o hnodup fun p hp => h p.1 (mem_keys hp) p.2 (lookup_of_mem hnodup hp)

mutual

/-- A plain value equals itself. -/
theorem pyEq_self : ∀ {v : Json}, v.plain = true → pyEq v v = true
  | .null, _ => rfl
  | .bool b, _ => by simp [pyEq]
  | .int i, _ => by simp [pyEq]
  | .float f, h => absurd h (by simp [plain])
  | .str s, _ => by simp [pyEq]
  | .arr items, h => by
    rw [plain] at h
    rw [pyEq, pyEqList_self h]
  | .obj members, h => by
    rw [plain] at h
    have hnodup := keys_nodup_of_plain h
    rw [pyEq, beq_self_eq_true, Bool.true_and,
      pyEqObj_self h fun p hp => lookup_of_mem hnodup hp]

theorem pyEqList_self : ∀ {items : List Json}, plainItems items = true →
    pyEqList items items = true
  | [], _ => rfl
  | v :: items, h => by
    rw [plainItems, Bool.and_eq_true] at h
    rw [pyEqList, pyEq_self h.1, pyEqList_self h.2, Bool.and_self]

theorem pyEqObj_self : ∀ {members : List (Str × Json)} {o : Object}, plainMembers members = true →
    (∀ p ∈ members, lookup p.1 o = some p.2) → pyEqObj members o = true
  | [], o, _, _ => rfl
  | (k, v) :: members, o, h, hlookup => by
    rw [plainMembers, Bool.and_eq_true, Bool.and_eq_true] at h
    rw [List.forall_mem_cons] at hlookup
    rw [pyEqObj, hlookup.1, pyEqObj_self h.2 hlookup.2, Bool.and_true]
    exact pyEq_self h.1.2

end

end Json

namespace JsonText

/-! ## Strings -/

theorem hex4?_control : ∀ {c : ℕ}, c < 32 →
    hex4? 48 48 (hexDigit (c / 16)) (hexDigit (c % 16)) = some c := by
  decide

/-- An escaped code point is one unit, marked when it is written in hexadecimal. -/
theorem body_escapeChar (c : ℕ) : ∃ marked, (marked = true → c < 32) ∧
    ∀ {b u}, Body b u → Body (escapeChar c ++ b) ((c, marked) :: u) := by
  unfold escapeChar
  split_ifs with h1 h2 h3 h4 h5 h6 h7
  · refine ⟨false, nofun, fun h => ?_⟩
    rcases h1 with rfl | rfl <;> exact .escape (by decide) (by decide) h
  · exact ⟨false, nofun, fun h => .escape (by decide) (by rw [h2]; decide) h⟩
  · exact ⟨false, nofun, fun h => .escape (by decide) (by rw [h3]; decide) h⟩
  · exact ⟨false, nofun, fun h => .escape (by decide) (by rw [h4]; decide) h⟩
  · exact ⟨false, nofun, fun h => .escape (by decide) (by rw [h5]; decide) h⟩
  · exact ⟨false, nofun, fun h => .escape (by decide) (by rw [h6]; decide) h⟩
  · exact ⟨true, fun _ => h7, fun h => .hex (hex4?_control h7) h⟩
  · rw [not_or] at h1
    exact ⟨false, nofun, fun h => .char h1.1 h1.2 (not_lt.mp h7) h⟩

/-- An escaped string spells the string. -/
theorem spells_escaped (s : Str) : Spells (s.flatMap escapeChar) s := by
  suffices h : ∃ u, Body (s.flatMap escapeChar) u ∧ u.map Prod.fst = s ∧ ∀ p ∈ u, p.2 = true → p.1 < 32 by
    obtain ⟨u, hbody, hs, hcontrol⟩ := h
    exact ⟨u, hbody, (joinSurrogates_of_control hcontrol).trans hs⟩
  induction s with
  | nil => exact ⟨[], .nil, rfl, nofun⟩
  | cons c s ih =>
    obtain ⟨u, hbody, hs, hcontrol⟩ := ih
    obtain ⟨marked, hmarked, hstep⟩ := body_escapeChar c
    exact ⟨(c, marked) :: u, hstep hbody, congrArg (c :: ·) hs, List.forall_mem_cons.mpr ⟨hmarked, hcontrol⟩⟩

theorem le_hexDigit (d : ℕ) : 48 ≤ hexDigit d := by
  rw [hexDigit]
  split_ifs
  · exact Nat.le_add_right 48 d
  · omega

/-- No escape holds a control character. -/
theorem le_of_mem_escapeChar {c d : ℕ} (h : d ∈ escapeChar c) : 32 ≤ d := by
  have short : ∀ {e : ℕ}, 32 ≤ e → d ∈ [92, e] → 32 ≤ d := by
    intro e he hd
    rcases List.mem_pair.mp hd with rfl | rfl
    · decide
    · exact he
  rw [escapeChar] at h
  split_ifs at h with h1 h2 h3 h4 h5 h6 h7
  · refine short ?_ h
    rcases h1 with rfl | rfl <;> decide
  · exact short (by decide) h
  · exact short (by decide) h
  · exact short (by decide) h
  · exact short (by decide) h
  · exact short (by decide) h
  · have hdigit := le_hexDigit (c / 16)
    have hdigit' := le_hexDigit (c % 16)
    simp only [List.mem_cons, List.not_mem_nil, or_false] at h
    omega
  · rw [List.mem_singleton.mp h]
    exact not_lt.mp h7

theorem le_of_mem_quote {s : Str} {d : ℕ} (h : d ∈ quote s) : 32 ≤ d := by
  unfold quote at h
  simp only [List.cons_append, List.mem_cons, List.mem_append, List.mem_flatMap,
    List.not_mem_nil, or_false] at h
  rcases h with rfl | ⟨c, -, hd⟩ | rfl
  · decide
  · exact le_of_mem_escapeChar hd
  · decide

/-! ## Numbers -/

theorem isDigit_iff {c : ℕ} : isDigit c = true ↔ 48 ≤ c ∧ c ≤ 57 := by
  simp [isDigit]

theorem ofDigits_concat (s : Str) (c : ℕ) : ofDigits (s ++ [c]) = ofDigits s * 10 + (c - 48) := by
  rw [ofDigits, List.foldl_append]
  rfl

/-- The digits of a number: they denote it, and only zero starts with a zero. -/
theorem digitsBefore_spec {fuel n : ℕ} (h : n < fuel) (acc : Str) :
    ∃ d ds, digitsBefore fuel n acc = d :: ds ++ acc ∧ (∀ c ∈ d :: ds, isDigit c = true) ∧
      ofDigits (d :: ds) = n ∧ (d = 48 → ds = []) := by
  induction fuel generalizing n acc with
  | zero => exact absurd h (Nat.not_lt_zero n)
  | succ fuel ih =>
    rw [digitsBefore]
    split_ifs with hn
    · refine ⟨48 + n, [], rfl, ?_, ?_, fun _ => rfl⟩
      · simp only [List.mem_singleton, forall_eq]
        rw [isDigit_iff]
        omega
      · simp [ofDigits]
    · obtain ⟨d, ds, heq, hdigits, hvalue, hzero⟩ := ih (show n / 10 < fuel by omega)
        ((48 + n % 10) :: acc)
      refine ⟨d, ds ++ [48 + n % 10], by rw [heq]; simp, ?_, ?_, ?_⟩
      · intro c hc
        rw [← List.cons_append, List.mem_append, List.mem_singleton] at hc
        rcases hc with hc | rfl
        · exact hdigits c hc
        · rw [isDigit_iff]
          omega
      · rw [← List.cons_append, ofDigits_concat, hvalue]
        omega
      · rintro rfl
        -- a leading zero would make the higher digits denote zero
        rw [hzero rfl] at hvalue
        have : ofDigits [48] = 0 := rfl
        omega

/-- A number below a power of ten has no more digits than its exponent. -/
theorem length_digitsBefore_le {fuel n k : ℕ} (hn : n < 10 ^ (k + 1)) (acc : Str) :
    (digitsBefore fuel n acc).length ≤ acc.length + (k + 1) := by
  induction fuel generalizing n k acc with
  | zero => exact Nat.le_add_right _ _
  | succ fuel ih =>
    rw [digitsBefore]
    split_ifs with hsmall
    · rw [List.length_cons]
      omega
    · rcases k with _ | k
      · omega
      · have hnext : n / 10 < 10 ^ (k + 1) := by
          rw [Nat.div_lt_iff_lt_mul (by decide)]
          rwa [Nat.pow_succ] at hn
        have hlen := ih hnext ((48 + n % 10) :: acc)
        rw [List.length_cons] at hlen
        omega

theorem natText_spec (n : ℕ) :
    ∃ d ds, natText n = d :: ds ∧ (∀ c ∈ d :: ds, isDigit c = true) ∧ ofDigits (d :: ds) = n ∧
      (d = 48 → ds = []) := by
  obtain ⟨d, ds, heq, h⟩ := digitsBefore_spec (Nat.lt_succ_self n) []
  exact ⟨d, ds, by rw [natText, heq, List.append_nil], h⟩

/-- The decimal digits of a number denote it. -/
theorem ofDigits_natText (n : ℕ) : ofDigits (natText n) = n := by
  obtain ⟨d, ds, heq, -, hvalue, -⟩ := natText_spec n
  rw [heq, hvalue]

theorem scanInteger_natText (n : ℕ) : scanInteger (natText n) = some (natText n, []) := by
  obtain ⟨d, ds, heq, hdigits, -, hzero⟩ := natText_spec n
  rw [heq, scanInteger]
  rw [List.forall_mem_cons] at hdigits
  obtain ⟨hd, hds⟩ := hdigits
  split_ifs with h0
  · rw [hzero h0]
  · rw [List.takeWhile_eq_self_iff.mpr hds, List.dropWhile_eq_nil_iff.mpr hds]

/-- A written integer is read back. -/
theorem scanToken_intText (floats : FloatText) (i : ℤ) : scanToken floats (intText i) = some (.int i, []) := by
  obtain ⟨d, ds, heq, hdigits, -⟩ := natText_spec i.natAbs
  have hd := hdigits d List.mem_cons_self
  have hscan := scanInteger_natText i.natAbs
  have hvalue := ofDigits_natText i.natAbs
  rw [heq] at hscan hvalue
  unfold scanToken intText
  rw [heq]
  split_ifs with hi
  · rw [(literal?_of_digit hd ds).2, scanNumber_eq, show splitSign (45 :: d :: ds) = ([45], d :: ds) from rfl, hscan]
    show some (Json.int (-(ofDigits (d :: ds) : ℤ)), ([] : Str)) = _
    rw [hvalue, show -(i.natAbs : ℤ) = i by omega]
  · have hsign : splitSign (d :: ds) = ([], d :: ds) := splitSign_of_ne fun r hr => by
      rw [(List.cons.inj hr).1] at hd
      cases hd
    rw [(literal?_of_digit hd ds).1, scanNumber_eq, hsign, hscan]
    show some (Json.int (ofDigits (d :: ds) : ℤ), ([] : Str)) = _
    rw [hvalue, show (i.natAbs : ℤ) = i by omega]

/-- An integer is written in ASCII, without control characters. -/
theorem mem_intText {i : ℤ} {c : ℕ} (h : c ∈ intText i) : 32 ≤ c ∧ c < 0x80 := by
  obtain ⟨d, ds, heq, hdigits, -⟩ := natText_spec i.natAbs
  have hdigit : ∀ c ∈ natText i.natAbs, 32 ≤ c ∧ c < 0x80 := fun c hc => by
    have := isDigit_iff.mp (hdigits c (heq ▸ hc))
    omega
  unfold intText at h
  split_ifs at h
  · rcases List.mem_cons.mp h with rfl | h
    · decide
    · exact hdigit c h
  · exact hdigit c h

/-! ## Members -/

theorem setMember_of_notMem {k : Str} {v : Json} {o : Json.Object} (h : k ∉ Json.keys o) :
    setMember k v o = o ++ [(k, v)] := by
  induction o with
  | nil => rfl
  | cons p o ih =>
    obtain ⟨k', w⟩ := p
    rw [Json.keys, List.map_cons, List.mem_cons, not_or] at h
    rw [setMember, if_neg (Ne.symm h.1), ih h.2, List.cons_append]

/-- Pairs with distinct keys are the object they make. -/
theorem ofPairs_of_nodup {o : Json.Object} (h : (Json.keys o).Nodup) : ofPairs o = o := by
  suffices hgen : ∀ (o acc : Json.Object), (Json.keys (acc ++ o)).Nodup →
      o.foldl (fun o p => setMember p.1 p.2 o) acc = acc ++ o from hgen o [] h
  intro o
  induction o with
  | nil => intro acc _; rw [List.append_nil]; rfl
  | cons p o ih =>
    intro acc hacc
    have hp : p.1 ∉ Json.keys acc := by
      rw [Json.keys, List.map_append, List.map_cons, List.nodup_append] at hacc
      exact fun hmem => hacc.2.2 p.1 hmem p.1 List.mem_cons_self rfl
    rw [List.foldl_cons, setMember_of_notMem hp, ih _ (by rwa [List.append_assoc]),
      List.append_assoc]
    rfl

/-! ## Values -/

mutual

/-- A value as it is written. -/
def written (floats : FloatText) : Json → Doc
  | .null => .token .null (str "null")
  | .bool true => .token (.bool true) (str "true")
  | .bool false => .token (.bool false) (str "false")
  | .int i => .token (.int i) (intText i)
  | .float f => .token (.float f) (floats.repr f)
  | .str s => .string s (s.flatMap escapeChar)
  | .arr [] => .emptyArray []
  | .arr (v :: items) => .array (writtenItems floats (written floats v) items)
  | .obj [] => .emptyObject []
  | .obj ((k, v) :: members) => .object (writtenMembers floats k (written floats v) members)

/-- The items, of which the first is written already. -/
def writtenItems (floats : FloatText) (first : Doc) : List Json → Items
  | [] => .last [] first []
  | v :: items => .cons [] first [] (writtenItems floats (written floats v) items)

def writtenMembers (floats : FloatText) (key : Str) (first : Doc) : List (Str × Json) → Members
  | [] => .last ⟨[], key.flatMap escapeChar, key, [], []⟩ first []
  | (k, v) :: members =>
    .cons ⟨[], key.flatMap escapeChar, key, [], []⟩ first [] (writtenMembers floats k (written floats v) members)

end

theorem blank_nil : Blank [] := nofun

theorem correct_label (key : Str) : Label.Correct ⟨[], key.flatMap escapeChar, key, [], []⟩ :=
  ⟨blank_nil, spells_escaped key, blank_nil, blank_nil⟩

theorem text_label (key : Str) (rest : Str) :
    Label.text ⟨[], key.flatMap escapeChar, key, [], []⟩ ++ rest = quote key ++ 58 :: rest := by
  simp [Label.text, quote]

/-- What is written of a value. -/
structure Writes (floats : FloatText) (d : Doc) (v : Json) : Prop where
  correct : d.Correct floats
  text : d.text = dumps floats v
  value : d.value = v

mutual

/-- **A plain value is written as a tree with its text.** -/
theorem writes_written (floats : FloatText) : ∀ {v : Json}, v.plain = true → Writes floats (written floats v) v
  | .null, _ | .bool true, _ | .bool false, _ => by
    rw [written]
    exact ⟨rfl, by rw [dumps]; rfl, rfl⟩
  | .int i, _ => by
    rw [written]
    exact ⟨scanToken_intText floats i, by rw [dumps]; rfl, rfl⟩
  | .float f, h => absurd h (by simp [Json.plain])
  | .str s, _ => by
    rw [written]
    exact ⟨spells_escaped s, by rw [dumps]; rfl, rfl⟩
  | .arr [], _ => by
    rw [written]
    exact ⟨blank_nil, by rw [dumps]; rfl, rfl⟩
  | .arr (v :: items), h => by
    rw [Json.plain, Json.plainItems, Bool.and_eq_true] at h
    have hv := writes_written floats h.1
    obtain ⟨hcorrect, htext, hvalues⟩ := writes_items floats h.2 hv.correct
    rw [written]
    refine ⟨hcorrect, ?_, ?_⟩
    · rw [Doc.text, htext, hv.text, dumps, List.cons_append]
    · rw [Doc.value, hvalues, hv.value]
  | .obj [], _ => by
    rw [written]
    exact ⟨blank_nil, by rw [dumps]; rfl, rfl⟩
  | .obj ((k, v) :: members), h => by
    rw [Json.plain] at h
    have hnodup := Json.keys_nodup_of_plain h
    rw [Json.plainMembers, Bool.and_eq_true, Bool.and_eq_true] at h
    have hv := writes_written floats h.1.2
    obtain ⟨hcorrect, htext, hpairs⟩ := writes_members floats h.2 k hv.correct
    rw [written]
    refine ⟨hcorrect, ?_, ?_⟩
    · rw [Doc.text, htext, hv.text, dumps]
      simp only [List.cons_append, List.append_assoc]
    · rw [Doc.value, hpairs, hv.value, ofPairs_of_nodup hnodup]

theorem writes_items (floats : FloatText) : ∀ {items : List Json}, Json.plainItems items = true →
    ∀ {first : Doc}, first.Correct floats → (writtenItems floats first items).Correct floats ∧
      (writtenItems floats first items).text = first.text ++ dumpsItems floats items ∧
      (writtenItems floats first items).values = first.value :: items
  | [], _, first, hfirst => by
    rw [writtenItems]
    exact ⟨⟨blank_nil, hfirst, blank_nil⟩, by simp [Items.text, dumpsItems], rfl⟩
  | v :: items, h, first, hfirst => by
    rw [Json.plainItems, Bool.and_eq_true] at h
    have hv := writes_written floats h.1
    obtain ⟨hcorrect, htext, hvalues⟩ := writes_items floats h.2 hv.correct
    rw [writtenItems]
    refine ⟨⟨blank_nil, hfirst, blank_nil, hcorrect⟩, ?_, ?_⟩
    · simp [Items.text, htext, hv.text, dumpsItems]
    · rw [Items.values, hvalues, hv.value]

theorem writes_members (floats : FloatText) : ∀ {members : List (Str × Json)}, Json.plainMembers members = true →
    ∀ (key : Str) {first : Doc}, first.Correct floats → (writtenMembers floats key first members).Correct floats ∧
      (writtenMembers floats key first members).text =
        quote key ++ 58 :: first.text ++ dumpsMembers floats members ∧
      (writtenMembers floats key first members).pairs = (key, first.value) :: members
  | [], _, key, first, hfirst => by
    rw [writtenMembers]
    refine ⟨⟨correct_label key, hfirst, blank_nil⟩, ?_, rfl⟩
    simp [Members.text, text_label, dumpsMembers]
  | (k, v) :: members, h, key, first, hfirst => by
    rw [Json.plainMembers, Bool.and_eq_true, Bool.and_eq_true] at h
    have hv := writes_written floats h.1.2
    obtain ⟨hcorrect, htext, hpairs⟩ := writes_members floats h.2 k hv.correct
    rw [writtenMembers]
    refine ⟨⟨correct_label key, hfirst, blank_nil, hcorrect⟩, ?_, ?_⟩
    · simp [Members.text, text_label, htext, hv.text, dumpsMembers]
    · rw [Members.pairs, hpairs, hv.value]

end

/-- **The round trip.** -/
theorem loads_dumps (floats : FloatText) {v : Json} (hv : v.plain = true) :
    loads floats (dumps floats v) = some v := by
  have hwritten := writes_written floats hv
  rw [← hwritten.text, loads_text hwritten.correct, hwritten.value]

/-- Values that are written alike are alike. -/
theorem dumps_injOn (floats : FloatText) {v w : Json} (hv : v.plain = true) (hw : w.plain = true)
    (h : dumps floats v = dumps floats w) : v = w := by
  have hloads := loads_dumps floats hv
  rw [h, loads_dumps floats hw] at hloads
  exact (Option.some.inj hloads).symm

mutual

/-- Written text contains no control character. -/
theorem le_of_mem_dumps (floats : FloatText) :
    ∀ {v : Json} {c : ℕ}, v.plain = true → c ∈ dumps floats v → 32 ≤ c
  | .null, c, _, h => by
    rw [dumps] at h
    exact (show ∀ c ∈ str "null", 32 ≤ c by decide) c h
  | .bool true, c, _, h => by
    rw [dumps] at h
    exact (show ∀ c ∈ str "true", 32 ≤ c by decide) c h
  | .bool false, c, _, h => by
    rw [dumps] at h
    exact (show ∀ c ∈ str "false", 32 ≤ c by decide) c h
  | .int i, c, _, h => by
    rw [dumps] at h
    exact (mem_intText h).1
  | .float f, c, hv, _ => absurd hv (by simp [Json.plain])
  | .str s, c, _, h => by
    rw [dumps] at h
    exact le_of_mem_quote h
  | .arr [], c, _, h => by
    rw [dumps] at h
    exact (show ∀ c ∈ str "[]", 32 ≤ c by decide) c h
  | .arr (v :: items), c, hv, h => by
    rw [Json.plain, Json.plainItems, Bool.and_eq_true] at hv
    rw [dumps, List.cons_append, List.mem_cons, List.mem_append] at h
    rcases h with rfl | h | h
    · decide
    · exact le_of_mem_dumps floats hv.1 h
    · exact le_of_mem_dumpsItems floats hv.2 h
  | .obj [], c, _, h => by
    rw [dumps] at h
    exact (show ∀ c ∈ str "\x7b\x7d", 32 ≤ c by decide) c h
  | .obj ((k, v) :: members), c, hv, h => by
    rw [Json.plain, Json.plainMembers, Bool.and_eq_true, Bool.and_eq_true] at hv
    rw [dumps, List.cons_append, List.cons_append, List.mem_cons, List.mem_append, List.mem_append,
      List.mem_cons] at h
    rcases h with rfl | (h | rfl | h) | h
    · decide
    · exact le_of_mem_quote h
    · decide
    · exact le_of_mem_dumps floats hv.1.2 h
    · exact le_of_mem_dumpsMembers floats hv.2 h

theorem le_of_mem_dumpsItems (floats : FloatText) :
    ∀ {items : List Json} {c : ℕ}, Json.plainItems items = true → c ∈ dumpsItems floats items →
      32 ≤ c
  | [], c, _, h => by
    rw [dumpsItems, List.mem_singleton] at h
    omega
  | v :: items, c, hv, h => by
    rw [Json.plainItems, Bool.and_eq_true] at hv
    rw [dumpsItems, List.cons_append, List.mem_cons, List.mem_append] at h
    rcases h with rfl | h | h
    · decide
    · exact le_of_mem_dumps floats hv.1 h
    · exact le_of_mem_dumpsItems floats hv.2 h

theorem le_of_mem_dumpsMembers (floats : FloatText) :
    ∀ {members : List (Str × Json)} {c : ℕ}, Json.plainMembers members = true →
      c ∈ dumpsMembers floats members → 32 ≤ c
  | [], c, _, h => by
    rw [dumpsMembers, List.mem_singleton] at h
    omega
  | (k, v) :: members, c, hv, h => by
    rw [Json.plainMembers, Bool.and_eq_true, Bool.and_eq_true] at hv
    rw [dumpsMembers, List.cons_append, List.cons_append, List.mem_cons, List.mem_append,
      List.mem_append, List.mem_cons] at h
    rcases h with rfl | (h | rfl | h) | h
    · decide
    · exact le_of_mem_quote h
    · decide
    · exact le_of_mem_dumps floats hv.1.2 h
    · exact le_of_mem_dumpsMembers floats hv.2 h

end

end JsonText

end AI2Apps
