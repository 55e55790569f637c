import AI2Apps.Lib.JsonDocs

/-!
# The objects that are found in a JSON text

Somebody reads a value at every opening brace of a text and collects the objects.  A brace of the
tree gives the object that it opens.  A brace within a string gives another object only when the
reading leaves the string through its quotation mark; from then on it takes the strings of the tree
for structure, and the structure for strings.  So what it reads as keys is punctuation and tokens.

* `found`: the objects that begin at the braces of a text.
* `Part`: a text that goes on within a string, or between strings.
* `key_of_lost`: what is read from within a string has no key with other letters.
* `found_text`: among the found objects with a given key are the objects of the tree, and no others.
-/

namespace AI2Apps.JsonText

/-- The object that begins the text. -/
def objectAt (floats : FloatText) (fuel : ℕ) (s : Str) : Option Json.Object :=
  match scanValue floats fuel s with
  | some (.obj o, _) => some o
  | _ => none

/-- The objects that begin at the braces of a part of a text, before the rest. -/
def foundIn (floats : FloatText) (fuel : ℕ) (rest : Str) : Str → List Json.Object
  | [] => []
  | c :: s =>
    (if c = 123 then (objectAt floats fuel (c :: s ++ rest)).toList else []) ++
      foundIn floats fuel rest s

/-- The objects that begin at the braces of a text, in their order. -/
def found (floats : FloatText) (fuel : ℕ) (s : Str) : List Json.Object :=
  foundIn floats fuel [] s

variable {floats : FloatText} {fuel : ℕ}

theorem foundIn_append (rest s₂ : Str) : ∀ s₁ : Str, foundIn floats fuel rest (s₁ ++ s₂) =
    foundIn floats fuel (s₂ ++ rest) s₁ ++ foundIn floats fuel rest s₂
  | [] => rfl
  | c :: s₁ => by
    rw [List.cons_append, foundIn, foundIn, foundIn_append rest s₂ s₁, List.append_assoc]
    simp [List.append_assoc]

theorem foundIn_of_notMem (rest : Str) : ∀ {s : Str}, 123 ∉ s → foundIn floats fuel rest s = []
  | [], _ => rfl
  | c :: s, h => by
    rw [List.mem_cons, not_or] at h
    rw [foundIn, if_neg (Ne.symm h.1), foundIn_of_notMem rest h.2, List.append_nil]

/-! ## Reading goes on where it is -/

variable {s r key : Str} {c : ℕ}

theorem Takes.suffix (h : Takes s r) : r <:+ s := by
  obtain ⟨t, rfl, -⟩ := h
  exact List.suffix_append t r

theorem skipSpace_suffix (s : Str) : skipSpace s <:+ s :=
  List.dropWhile_suffix _

/-- The units of a string stand before its closing quotation mark. -/
theorem body_of_scanUnits {u : List (ℕ × Bool)} (h : scanUnits s = some (u, r)) :
    ∃ b, Body b u ∧ s = b ++ 34 :: r := by
  induction s using scanUnits.induct generalizing u r with
  | case1 => cases h
  | case2 s =>
    rw [scanUnits.eq_def] at h
    cases h
    exact ⟨[], .nil, rfl⟩
  | case3 => cases h
  | case4 a b c d s hhex =>
    rw [scanUnits.eq_def] at h
    simp [hhex] at h
  | case5 a b c d s x hhex _ ih =>
    rw [scanUnits_hex hhex, Option.map_eq_some_iff] at h
    obtain ⟨⟨u', r'⟩, hscan, heq⟩ := h
    cases heq
    obtain ⟨body, hbody, rfl⟩ := ih hscan
    exact ⟨_, .hex hhex hbody, rfl⟩
  | case6 s hshort =>
    rw [scanUnits.eq_def] at h
    simp only [if_neg (show ¬ (92 : ℕ) = 34 by decide), if_pos] at h
    cases h
  | case7 e s h117 hescape =>
    rw [scanUnits.eq_def] at h
    simp [h117, hescape] at h
  | case8 e s h117 c hescape _ ih =>
    rw [scanUnits_escape h117 hescape, Option.map_eq_some_iff] at h
    obtain ⟨⟨u', r'⟩, hscan, heq⟩ := h
    cases heq
    obtain ⟨body, hbody, rfl⟩ := ih hscan
    exact ⟨_, .escape h117 hescape hbody, rfl⟩
  | case9 c s h34 h92 h32 =>
    rw [scanUnits.eq_def] at h
    simp [h34, h92, h32] at h
  | case10 c s h34 h92 h32 ih =>
    rw [scanUnits_plain h34 h92 h32, Option.map_eq_some_iff] at h
    obtain ⟨⟨u', r'⟩, hscan, heq⟩ := h
    cases heq
    obtain ⟨body, hbody, rfl⟩ := ih hscan
    exact ⟨_, .char h34 h92 (by omega) hbody, rfl⟩

theorem scanString_suffix {k : Str} (h : scanString s = some (k, r)) : r <:+ s := by
  obtain ⟨⟨u, r'⟩, hscan, heq⟩ := Option.map_eq_some_iff.mp h
  cases heq
  obtain ⟨b, -, rfl⟩ := body_of_scanUnits hscan
  exact (List.suffix_cons _ _).trans (List.suffix_append _ _)

/-- What is left after a value, after items and after members; members end with a brace. -/
theorem scan_suffix : ∀ fuel : ℕ,
    (∀ {s r : Str} {v : Json}, scanValue floats fuel s = some (v, r) → r <:+ s) ∧
    (∀ {s r : Str} {vs : List Json}, scanItems floats fuel s = some (vs, r) → r <:+ s) ∧
    ∀ {s r : Str} {ps : List (Str × Json)}, scanMembers floats fuel s = some (ps, r) →
      r <:+ s ∧ 125 ∈ s
  | 0 => ⟨nofun, nofun, nofun⟩
  | fuel + 1 => by
    obtain ⟨hvalue, hitems, hmembers⟩ := scan_suffix fuel
    refine ⟨fun {s r v} h => ?_, fun {s r vs} h => ?_, fun {s r ps} h => ?_⟩
    · cases s with
      | nil => cases h
      | cons c s =>
        rw [scanValue] at h
        split_ifs at h with h34 h123 h91
        · obtain ⟨⟨k, r'⟩, hscan, heq⟩ := Option.map_eq_some_iff.mp h
          cases heq
          exact (scanString_suffix hscan).trans (List.suffix_cons _ _)
        · split at h
          · next hskip =>
            cases h
            have hrest : r <:+ skipSpace s := by
              rw [hskip]
              exact List.suffix_cons _ _
            exact (hrest.trans (skipSpace_suffix s)).trans (List.suffix_cons _ _)
          · obtain ⟨⟨ps, r'⟩, hscan, heq⟩ := Option.map_eq_some_iff.mp h
            cases heq
            exact ((hmembers hscan).1.trans (skipSpace_suffix s)).trans (List.suffix_cons _ _)
        · split at h
          · next hskip =>
            cases h
            have hrest : r <:+ skipSpace s := by
              rw [hskip]
              exact List.suffix_cons _ _
            exact (hrest.trans (skipSpace_suffix s)).trans (List.suffix_cons _ _)
          · obtain ⟨⟨vs, r'⟩, hscan, heq⟩ := Option.map_eq_some_iff.mp h
            cases heq
            exact ((hitems hscan).trans (skipSpace_suffix s)).trans (List.suffix_cons _ _)
        · exact (scanToken_takes h).suffix
    · rw [scanItems] at h
      split at h
      · cases h
      · next v r₁ hscan =>
        have hfirst := hvalue hscan
        split at h
        · next hskip =>
          cases h
          have hrest : r <:+ skipSpace r₁ := by
            rw [hskip]
            exact List.suffix_cons _ _
          exact (hrest.trans (skipSpace_suffix r₁)).trans hfirst
        · next r₂ hskip =>
          obtain ⟨⟨vs, r₃⟩, hrest, heq⟩ := Option.map_eq_some_iff.mp h
          cases heq
          exact ((((hitems hrest).trans (skipSpace_suffix r₂)).trans
            (hskip ▸ List.suffix_cons 44 r₂)).trans (skipSpace_suffix r₁)).trans hfirst
        · cases h
    · cases s with
      | nil => cases h
      | cons c s =>
        rw [scanMembers] at h
        split_ifs at h with h34
        split at h
        · cases h
        · next k r₁ hkey =>
          have h₁ : r₁ <:+ c :: s := (scanString_suffix hkey).trans (List.suffix_cons _ _)
          split at h
          · next r₂ hcolon =>
            have h₂ : r₂ <:+ c :: s :=
              ((hcolon ▸ List.suffix_cons 58 r₂).trans (skipSpace_suffix r₁)).trans h₁
            split at h
            · cases h
            · next v r₃ hscan =>
              have h₃ : r₃ <:+ c :: s := ((hvalue hscan).trans (skipSpace_suffix r₂)).trans h₂
              split at h
              · next r₄ hskip =>
                have h₄ : 125 :: r₄ <:+ c :: s := (hskip ▸ skipSpace_suffix r₃).trans h₃
                cases h
                exact ⟨(List.suffix_cons _ _).trans h₄, h₄.subset (List.mem_cons_self ..)⟩
              · next r₄ hskip =>
                have h₄ : 44 :: r₄ <:+ c :: s := (hskip ▸ skipSpace_suffix r₃).trans h₃
                have h₅ := ((skipSpace_suffix r₄).trans (List.suffix_cons 44 r₄)).trans h₄
                obtain ⟨⟨ps', r₅⟩, hrest, heq⟩ := Option.map_eq_some_iff.mp h
                cases heq
                exact ⟨(hmembers hrest).1.trans h₅, h₅.subset (hmembers hrest).2⟩
              · cases h
          · cases h

/-! ## Within a string and between strings -/

/-- A character between the strings of a JSON text. -/
def gapChar (c : ℕ) : Bool :=
  tokenChar c || isSpace c || c = 44 || c = 58 || c = 91 || c = 93 || c = 123 || c = 125

/-- A text that goes on within a string of a JSON text (`true`) or between its strings (`false`),
and then without closing braces. -/
inductive Part : Bool → Str → Prop where
  | free {s : Str} : 125 ∉ s → Part false s
  | gap {c : ℕ} {s : Str} : gapChar c = true → Part false s → Part false (c :: s)
  | opens {s : Str} : Part true s → Part false (34 :: s)
  | closes {s : Str} : Part false s → Part true (34 :: s)
  | char {c : ℕ} {s : Str} : c ≠ 34 → c ≠ 92 → Part true s → Part true (c :: s)
  | escape {e : ℕ} {s : Str} : Part true s → Part true (92 :: e :: s)

theorem ne_of_gapChar (h : gapChar c = true) : c ≠ 34 ∧ c ≠ 92 := by
  constructor <;> rintro rfl <;> cases h

theorem Part.cons_inv (h34 : c ≠ 34) (h92 : c ≠ 92) (h : Part true (c :: s)) :
    Part true s := by
  cases h with
  | closes => exact absurd rfl h34
  | char _ _ h => exact h
  | escape => exact absurd rfl h92

/-- The key has a character that does not stand between strings. -/
def Lettered (key : Str) : Prop :=
  ∃ c ∈ key, gapChar c = false

/-- From between strings a string is read up to the next quotation mark: it is what stands there. -/
theorem Part.scanUnits {side : Bool} (h : Part side s) (hside : side = false) :
    ∀ {u : List (ℕ × Bool)} {r : Str}, JsonText.scanUnits s = some (u, r) →
      (Part true r ∧ ∀ p ∈ u, p.2 = false ∧ gapChar p.1 = true) ∨ 125 ∉ r := by
  induction h with
  | free hfree =>
    intro u r hscan
    obtain ⟨b, -, rfl⟩ := body_of_scanUnits hscan
    exact .inr fun hmem => hfree (List.mem_append_right _ (List.mem_cons_of_mem _ hmem))
  | @gap c s hc _ ih =>
    intro u r hscan
    obtain ⟨h34, h92⟩ := ne_of_gapChar hc
    by_cases h32 : c < 32
    · rw [scanUnits.eq_def] at hscan
      simp [h34, h92, h32] at hscan
    · rw [scanUnits_plain h34 h92 h32, Option.map_eq_some_iff] at hscan
      obtain ⟨⟨u', r'⟩, hscan, heq⟩ := hscan
      cases heq
      rcases ih hside hscan with ⟨hpart, hall⟩ | hfree
      · exact .inl ⟨hpart, List.forall_mem_cons.mpr ⟨⟨rfl, hc⟩, hall⟩⟩
      · exact .inr hfree
  | opens hpart _ =>
    intro u r hscan
    rw [scanUnits.eq_def] at hscan
    simp only [if_pos] at hscan
    cases hscan
    exact .inl ⟨hpart, by simp⟩
  | closes => cases hside
  | char => cases hside
  | escape => cases hside

/-! ## Reading from within a string -/

/-- Within a string, or without closing braces. -/
def Lost (s : Str) : Prop :=
  Part true s ∨ 125 ∉ s

theorem Lost.tail (h : Lost (c :: s)) (h34 : c ≠ 34) (h92 : c ≠ 92) : Lost s := by
  rcases h with hpart | hfree
  · exact .inl (hpart.cons_inv h34 h92)
  · exact .inr fun hmem => hfree (List.mem_cons_of_mem _ hmem)

theorem Lost.drop {t : Str} (h : Lost (t ++ s)) (ht : ∀ c ∈ t, gapChar c = true) : Lost s := by
  induction t with
  | nil => exact h
  | cons c t ih =>
    rw [List.forall_mem_cons] at ht
    obtain ⟨h34, h92⟩ := ne_of_gapChar ht.1
    exact ih (Lost.tail h h34 h92) ht.2

theorem gapChar_of_tokenChar (h : tokenChar c = true) : gapChar c = true := by
  simp [gapChar, h]

theorem gapChar_of_isSpace (h : isSpace c = true) : gapChar c = true := by
  simp [gapChar, h]

theorem Lost.takes (h : Lost s) (ht : Takes s r) : Lost r := by
  obtain ⟨t, rfl, hchars⟩ := ht
  exact h.drop fun c hc => gapChar_of_tokenChar (hchars c hc)

theorem Lost.skipSpace (h : Lost s) : Lost (JsonText.skipSpace s) := by
  rw [← List.takeWhile_append_dropWhile (p := isSpace) (l := s)] at h
  exact h.drop fun c hc => gapChar_of_isSpace (List.mem_takeWhile_imp hc)

/-- A string that is read from within a string is no lettered key, or no brace follows it. -/
theorem Lost.scanString {k : Str} (h : Lost (34 :: s)) (hkey : Lettered key)
    (hscan : JsonText.scanString s = some (k, r)) : Lost r ∧ (k = key → 125 ∉ r) := by
  obtain ⟨⟨u, r'⟩, hunits, heq⟩ := Option.map_eq_some_iff.mp hscan
  cases heq
  dsimp only
  have hcases : (Part true r' ∧ ∀ p ∈ u, p.2 = false ∧ gapChar p.1 = true) ∨ 125 ∉ r' := by
    rcases h with hpart | hfree
    · cases hpart with
      | closes hpart => exact hpart.scanUnits rfl hunits
      | char h34 => exact absurd rfl h34
    · exact .inr fun hmem => hfree (List.mem_cons_of_mem _ ((scanString_suffix hscan).subset hmem))
  rcases hcases with ⟨hpart, hall⟩ | hfree
  · refine ⟨.inl hpart, ?_⟩
    rintro rfl
    obtain ⟨c, hc, hletter⟩ := hkey
    rw [joinSurrogates_of_control fun p hp hmark => absurd hmark (by simp [(hall p hp).1])] at hc
    obtain ⟨p, hp, rfl⟩ := List.mem_map.mp hc
    rw [(hall p hp).2] at hletter
    cases hletter
  · exact ⟨.inr hfree, fun _ => hfree⟩

/-- What is read from within a string leaves the reader lost, and its members have no lettered
key. -/
theorem scan_lost {key : Str} (hkey : Lettered key) : ∀ fuel : ℕ,
    (∀ {s r : Str} {v : Json}, Lost s → scanValue floats fuel s = some (v, r) → Lost r) ∧
    (∀ {s r : Str} {vs : List Json}, Lost s → scanItems floats fuel s = some (vs, r) → Lost r) ∧
    ∀ {s r : Str} {ps : List (Str × Json)}, Lost s → scanMembers floats fuel s = some (ps, r) →
      Lost r ∧ ∀ p ∈ ps, p.1 ≠ key
  | 0 => ⟨nofun, nofun, nofun⟩
  | fuel + 1 => by
    obtain ⟨hvalue, hitems, hmembers⟩ := scan_lost hkey fuel
    have hstep : ∀ {c : ℕ} {s : Str}, gapChar c = true → Lost (c :: s) → Lost (skipSpace s) :=
      fun hc h => (h.tail (ne_of_gapChar hc).1 (ne_of_gapChar hc).2).skipSpace
    have hskipped : ∀ {c : ℕ} {s t : Str}, gapChar c = true → skipSpace s = c :: t → Lost s → Lost t :=
      fun hc heq h => (heq ▸ h.skipSpace).tail (ne_of_gapChar hc).1 (ne_of_gapChar hc).2
    refine ⟨fun {s r v} hs h => ?_, fun {s r vs} hs h => ?_, fun {s r ps} hs h => ?_⟩
    · cases s with
      | nil => cases h
      | cons c s =>
        rw [scanValue] at h
        split_ifs at h with h34 h123 h91
        · subst h34
          obtain ⟨⟨k, r'⟩, hscan, heq⟩ := Option.map_eq_some_iff.mp h
          cases heq
          exact (hs.scanString hkey hscan).1
        · subst h123
          have hrest := hstep (by decide) hs
          split at h
          · next hskip =>
            cases h
            rw [hskip] at hrest
            exact hrest.tail (by decide) (by decide)
          · obtain ⟨⟨ps, r'⟩, hscan, heq⟩ := Option.map_eq_some_iff.mp h
            cases heq
            exact (hmembers hrest hscan).1
        · subst h91
          have hrest := hstep (by decide) hs
          split at h
          · next hskip =>
            cases h
            rw [hskip] at hrest
            exact hrest.tail (by decide) (by decide)
          · obtain ⟨⟨vs, r'⟩, hscan, heq⟩ := Option.map_eq_some_iff.mp h
            cases heq
            exact hitems hrest hscan
        · exact hs.takes (scanToken_takes h)
    · rw [scanItems] at h
      split at h
      · cases h
      · next v r₁ hscan =>
        have hfirst := hvalue hs hscan
        split at h
        · next hskip =>
          cases h
          exact hskipped (by decide) hskip hfirst
        · next r₂ hskip =>
          have hnext := (hskipped (by decide) hskip hfirst).skipSpace
          obtain ⟨⟨vs, r₃⟩, hrest, heq⟩ := Option.map_eq_some_iff.mp h
          cases heq
          exact hitems hnext hrest
        · cases h
    · cases s with
      | nil => cases h
      | cons c s =>
        rw [scanMembers] at h
        split_ifs at h with h34
        subst h34
        split at h
        · cases h
        · next k r₁ hscan =>
          obtain ⟨h₁, hk⟩ := hs.scanString hkey hscan
          split at h
          · next r₂ hcolon =>
            have h₂ := (hskipped (by decide) hcolon h₁).skipSpace
            split at h
            · cases h
            · next v r₃ hv =>
              have h₃ := hvalue h₂ hv
              have hsub : r₃ ⊆ r₁ := by
                have hskip₁ := skipSpace_suffix r₁
                rw [hcolon] at hskip₁
                exact ((((scan_suffix fuel).1 hv).trans (skipSpace_suffix r₂)).trans
                  ((List.suffix_cons _ _).trans hskip₁)).subset
              split at h
              · next hskip =>
                have hbrace : 125 ∈ r₃ := by
                  have hskip₃ := (skipSpace_suffix r₃).subset
                  rw [hskip] at hskip₃
                  exact hskip₃ (List.mem_cons_self ..)
                cases h
                refine ⟨hskipped (by decide) hskip h₃, ?_⟩
                rintro p hp rfl
                rw [List.mem_singleton] at hp
                subst hp
                exact hk rfl (hsub hbrace)
              · next r₄ hskip =>
                have h₄ := (hskipped (by decide) hskip h₃).skipSpace
                obtain ⟨⟨ps', r₅⟩, hrest, heq⟩ := Option.map_eq_some_iff.mp h
                have hbrace : 125 ∈ r₃ := by
                  have hskip₃ := (skipSpace_suffix r₃).subset
                  rw [hskip] at hskip₃
                  exact hskip₃ (List.mem_cons_of_mem _
                    ((skipSpace_suffix r₄).subset ((scan_suffix fuel).2.2 hrest).2))
                cases heq
                obtain ⟨hlost, hnot⟩ := hmembers h₄ hrest
                refine ⟨hlost, List.forall_mem_cons.mpr ⟨?_, hnot⟩⟩
                rintro rfl
                exact hk rfl (hsub hbrace)
              · cases h
          · cases h

theorem lookup_ofPairs_of_ne {key : Str} : ∀ {ps : List (Str × Json)} {o : Json.Object},
    (∀ p ∈ ps, p.1 ≠ key) →
      Json.lookup key (ps.foldl (fun o p => setMember p.1 p.2 o) o) = Json.lookup key o
  | [], _, _ => rfl
  | p :: ps, o, h => by
    rw [List.forall_mem_cons] at h
    rw [List.foldl_cons, lookup_ofPairs_of_ne h.2, lookup_setMember_of_ne h.1]

/-- **What is read from within a string has no lettered key.** -/
theorem key_of_lost {o : Json.Object} (hkey : Lettered key) (h : Part true s)
    (ho : objectAt floats fuel (123 :: s) = some o) : Json.lookup key o = none := by
  rw [objectAt] at ho
  cases fuel with
  | zero => cases ho
  | succ fuel =>
    rw [scanValue, if_neg (by decide), if_pos rfl] at ho
    have hlost : Lost (skipSpace s) := Lost.skipSpace (.inl h)
    split at ho
    · next o' r hscan =>
      cases ho
      split at hscan
      · cases hscan
        rfl
      · obtain ⟨⟨ps, r'⟩, hmembers, heq⟩ := Option.map_eq_some_iff.mp hscan
        cases heq
        exact lookup_ofPairs_of_ne ((scan_lost hkey fuel).2.2 hlost hmembers).2
    · cases ho

/-! ## The objects of a tree are found -/

/-- The object has the key. -/
def keyed (key : Str) (o : Json.Object) : Bool :=
  (Json.lookup key o).isSome

/-- Before the rest the part stands between strings, and the objects with the key that are found in
it are these. -/
structure Covers (floats : FloatText) (fuel : ℕ) (key s : Str) (os : List Json.Object) (rest : Str) :
    Prop where
  part : Part false (s ++ rest)
  found : (foundIn floats fuel rest s).filter (keyed key) = os.filter (keyed key)

variable {key rest : Str}

theorem Covers.append {s₁ s₂ : Str} {os₁ os₂ : List Json.Object}
    (h₁ : Covers floats fuel key s₁ os₁ (s₂ ++ rest)) (h₂ : Covers floats fuel key s₂ os₂ rest) :
    Covers floats fuel key (s₁ ++ s₂) (os₁ ++ os₂) rest where
  part := by
    rw [List.append_assoc]
    exact h₁.part
  found := by rw [foundIn_append, List.filter_append, List.filter_append, h₁.found, h₂.found]

theorem Part.gaps (h : Part false rest) : ∀ {s : Str}, (∀ c ∈ s, gapChar c = true) → Part false (s ++ rest)
  | [], _ => h
  | _ :: _, hs => .gap (List.forall_mem_cons.mp hs).1 (h.gaps (List.forall_mem_cons.mp hs).2)

theorem covers_gap (h : Part false rest) (hs : ∀ c ∈ s, gapChar c = true) (hbrace : 123 ∉ s) :
    Covers floats fuel key s [] rest where
  part := h.gaps hs
  found := by rw [foundIn_of_notMem rest hbrace]

theorem covers_blank (h : Part false rest) (hs : Blank s) : Covers floats fuel key s [] rest :=
  covers_gap h (fun c hc => gapChar_of_isSpace (hs c hc)) fun hmem => by
    have := hs _ hmem
    cases this

theorem covers_char (h : Part false rest) (hc : gapChar c = true) (hbrace : c ≠ 123) :
    Covers floats fuel key [c] [] rest :=
  covers_gap h (by simpa using hc) (by simpa using hbrace.symm)

theorem covers_brace (h : Part false rest) {o : Json.Object}
    (ho : objectAt floats fuel (123 :: rest) = some o) : Covers floats fuel key [123] [o] rest where
  part := .gap (by decide) h
  found := by simp [foundIn, ho]

theorem covers_token (h : Part false rest) {text : Str} {v : Json}
    (ht : scanToken floats text = some (v, [])) : Covers floats fuel key text [] rest := by
  obtain ⟨t, ht, hchars⟩ := scanToken_takes ht
  rw [List.append_nil] at ht
  subst ht
  refine covers_gap h (fun c hc => gapChar_of_tokenChar (hchars c hc)) fun hmem => ?_
  have := hchars _ hmem
  cases this

theorem hexValue?_isSome {d : ℕ} (h : hexValue? c = some d) : c ≠ 34 ∧ c ≠ 92 ∧ c ≠ 123 := by
  refine ⟨?_, ?_, ?_⟩ <;> rintro rfl <;> cases h

theorem hex4?_isSome {w x y z : ℕ} (h : hex4? w x y z = some c) :
    ∀ d ∈ [w, x, y, z], d ≠ 34 ∧ d ≠ 92 ∧ d ≠ 123 := by
  simp only [hex4?, Option.bind_eq_bind, Option.bind_eq_some_iff] at h
  obtain ⟨a, ha, b, hb, c, hc, d, hd, -⟩ := h
  simp only [List.forall_mem_cons]
  exact ⟨hexValue?_isSome ha, hexValue?_isSome hb, hexValue?_isSome hc, hexValue?_isSome hd, by simp⟩

/-- Within a string of the tree no object with a lettered key is found. -/
theorem covers_body (hkey : Lettered key) {b : Str} {u : List (ℕ × Bool)} (hb : Body b u)
    (h : Part false rest) : Part true (b ++ 34 :: rest) ∧
      (foundIn floats fuel (34 :: rest) b).filter (keyed key) = [] := by
  induction hb with
  | nil => exact ⟨.closes h, rfl⟩
  | @char c b u h34 h92 _ _ ih =>
    obtain ⟨hpart, hfound⟩ := ih
    refine ⟨.char h34 h92 hpart, ?_⟩
    rw [foundIn, List.filter_append, hfound, List.append_nil]
    split_ifs with hc
    · subst hc
      cases ho : objectAt floats fuel (123 :: b ++ 34 :: rest) with
      | none => rfl
      | some o =>
        have := key_of_lost hkey hpart ho
        simp [keyed, this]
    · rfl
  | @escape e c b u h117 hescape _ ih =>
    obtain ⟨hpart, hfound⟩ := ih
    have he : e ≠ 123 := by
      rintro rfl
      cases hescape
    refine ⟨.escape hpart, ?_⟩
    rw [foundIn, foundIn, if_neg (by decide), if_neg he, List.nil_append, List.nil_append, hfound]
  | @hex w x y z c b u hhex _ ih =>
    obtain ⟨hpart, hfound⟩ := ih
    obtain ⟨hw, hx, hy, hz⟩ : (w ≠ 34 ∧ w ≠ 92 ∧ w ≠ 123) ∧ (x ≠ 34 ∧ x ≠ 92 ∧ x ≠ 123) ∧
        (y ≠ 34 ∧ y ≠ 92 ∧ y ≠ 123) ∧ (z ≠ 34 ∧ z ≠ 92 ∧ z ≠ 123) := by
      simpa using hex4?_isSome hhex
    refine ⟨.escape (.char hw.1 hw.2.1 (.char hx.1 hx.2.1 (.char hy.1 hy.2.1
      (.char hz.1 hz.2.1 hpart)))), ?_⟩
    simp only [foundIn]
    rw [if_neg (by decide), if_neg (by decide), if_neg hw.2.2, if_neg hx.2.2, if_neg hy.2.2,
      if_neg hz.2.2]
    exact hfound

theorem covers_string (hkey : Lettered key) {body value : Str} (hbody : Spells body value)
    (h : Part false rest) : Covers floats fuel key (34 :: body ++ [34]) [] rest := by
  obtain ⟨u, hu, -⟩ := hbody
  obtain ⟨hpart, hfound⟩ := @covers_body floats fuel key rest hkey body u hu h
  refine ⟨?_, ?_⟩
  · rw [List.append_assoc]
    exact .opens hpart
  · rw [List.cons_append, foundIn, if_neg (by decide), foundIn_append, List.nil_append,
      List.filter_append, List.singleton_append, hfound]
    simp [foundIn]

theorem covers_label (hkey : Lettered key) {l : Label} (hl : l.Correct) (h : Part false rest) :
    Covers floats fuel key (l.before ++ l.text) [] rest := by
  have hnext : Covers floats fuel key l.next [] rest := covers_blank h hl.next
  have hcolon : Covers floats fuel key ([58] ++ l.next) [] rest :=
    (covers_char hnext.part (by decide) (by decide)).append hnext
  have hafter := (covers_blank hcolon.part hl.after).append hcolon
  have hquoted := (covers_string hkey hl.spells hafter.part).append hafter
  have hbefore := (covers_blank hquoted.part hl.before).append hquoted
  simpa [Label.text] using hbefore

theorem covers_close (h : Part false rest) {space : Str} (hspace : Blank space) (hc : gapChar c = true)
    (hbrace : c ≠ 123) : Covers floats fuel key (space ++ [c]) [] rest := by
  have hclose : Covers floats fuel key [c] [] rest := covers_char h hc hbrace
  exact (covers_blank hclose.part hspace).append hclose

theorem covers_item {d : Doc} {os : List Json.Object} {before after : Str} (hbefore : Blank before)
    (hafter : Blank after) (hc : gapChar c = true) (hbrace : c ≠ 123) (h : Part false rest)
    (hd : Part false (after ++ c :: rest) → Covers floats fuel key d.text os (after ++ c :: rest)) :
    Covers floats fuel key (before ++ d.text ++ after ++ [c]) os rest := by
  have hclose : Covers floats fuel key (after ++ [c]) [] rest := covers_close h hafter hc hbrace
  have hitem := hd (by simpa using hclose.part)
  have hlast : Covers floats fuel key (d.text ++ (after ++ [c])) (os ++ []) rest :=
    Covers.append (by simpa using hitem) hclose
  have hall := (covers_blank hlast.part hbefore).append hlast
  simpa using hall

theorem objectAt_of_scanValue {o : Json.Object} (h : scanValue floats fuel s = some (.obj o, r)) :
    objectAt floats fuel s = some o := by
  rw [objectAt, h]

mutual

theorem covers_text (hkey : Lettered key) : ∀ {d : Doc}, d.Correct floats → ∀ {rest : Str},
    (d.IsToken → Stops rest) → d.text.length ≤ fuel → Part false rest →
      Covers floats fuel key d.text d.objects rest
  | .token _ _, h, rest, _, _, hrest => covers_token hrest h
  | .string _ _, h, rest, _, _, hrest => covers_string hkey h hrest
  | .emptyArray space, h, rest, _, _, hrest => by
    have hclose : Covers floats fuel key (space ++ [93]) [] rest :=
      covers_close hrest h (by decide) (by decide)
    exact (covers_char (c := 91) hclose.part (by decide) (by decide)).append hclose
  | .array items, h, rest, _, hfuel, hrest => by
    have hitems := coversItems_text hkey h (by simp [Doc.text] at hfuel; omega) hrest
    exact (covers_char (c := 91) hitems.part (by decide) (by decide)).append hitems
  | .emptyObject space, h, rest, _, hfuel, hrest => by
    have hclose : Covers floats fuel key (space ++ [125]) [] rest :=
      covers_close hrest h (by decide) (by decide)
    have hread := @scanValue_text floats (.emptyObject space) h rest (fun ht => ht.elim) fuel hfuel
    have hobject : objectAt floats fuel (123 :: ((space ++ [125]) ++ rest)) = some [] := by
      refine objectAt_of_scanValue (r := rest) ?_
      simpa [Doc.text, Doc.value] using hread
    exact (covers_brace hclose.part hobject).append hclose
  | .object members, h, rest, _, hfuel, hrest => by
    have hmembers := coversMembers_text hkey h (by simp [Doc.text] at hfuel; omega) hrest
    have hread := @scanValue_text floats (.object members) h rest (fun ht => ht.elim) fuel hfuel
    have hobject : objectAt floats fuel (123 :: (members.text ++ rest)) =
        some (ofPairs members.pairs) := by
      refine objectAt_of_scanValue (r := rest) ?_
      simpa [Doc.text, Doc.value] using hread
    exact (covers_brace hmembers.part hobject).append hmembers

theorem coversItems_text (hkey : Lettered key) : ∀ {items : Items}, items.Correct floats →
    ∀ {rest : Str}, items.text.length ≤ fuel → Part false rest →
      Covers floats fuel key items.text items.objects rest
  | .last before item after, h, rest, hfuel, hrest => by
    obtain ⟨hbefore, hitem, hafter⟩ := h
    exact covers_item hbefore hafter (by decide) (by decide) hrest fun hpart =>
      covers_text hkey hitem (fun _ => stops_space hafter (.inr (.inl rfl)) rest)
        (by simp [Items.text] at hfuel; omega) hpart
  | .cons before item after items, h, rest, hfuel, hrest => by
    obtain ⟨hbefore, hitem, hafter, hitems⟩ := h
    have htail := coversItems_text hkey hitems (by simp [Items.text] at hfuel; omega) hrest
    have hfirst : Covers floats fuel key (before ++ item.text ++ after ++ [44]) item.objects
        (items.text ++ rest) :=
      covers_item hbefore hafter (by decide) (by decide) htail.part fun hpart => covers_text hkey hitem
        (fun _ => stops_space hafter (.inl rfl) (items.text ++ rest))
        (by simp [Items.text] at hfuel; omega) hpart
    have hall := hfirst.append htail
    simpa [Items.text, Items.objects] using hall

theorem coversMembers_text (hkey : Lettered key) : ∀ {members : Members}, members.Correct floats →
    ∀ {rest : Str}, members.text.length ≤ fuel → Part false rest →
      Covers floats fuel key members.text members.objects rest
  | .last label value after, h, rest, hfuel, hrest => by
    obtain ⟨hlabel, hvalue, hafter⟩ := h
    have hitem : Covers floats fuel key ([] ++ value.text ++ after ++ [125]) value.objects rest :=
      covers_item (by simp [Blank]) hafter (by decide) (by decide) hrest fun hpart =>
        covers_text hkey hvalue (fun _ => stops_space hafter (.inr (.inr rfl)) rest)
          (by simp [Members.text] at hfuel; omega) hpart
    have hall := (covers_label hkey hlabel hitem.part).append hitem
    simpa [Members.text, Members.objects] using hall
  | .cons label value after members, h, rest, hfuel, hrest => by
    obtain ⟨hlabel, hvalue, hafter, hmembers⟩ := h
    have htail := coversMembers_text hkey hmembers (by simp [Members.text] at hfuel; omega) hrest
    have hitem : Covers floats fuel key ([] ++ value.text ++ after ++ [44]) value.objects
        (members.text ++ rest) :=
      covers_item (by simp [Blank]) hafter (by decide) (by decide) htail.part fun hpart =>
        covers_text hkey hvalue (fun _ => stops_space hafter (.inl rfl) (members.text ++ rest))
          (by simp [Members.text] at hfuel; omega) hpart
    have hall := (covers_label hkey hlabel (hitem.append htail).part).append (hitem.append htail)
    simpa [Members.text, Members.objects] using hall

end

/-- **Among the objects that are found in a text with one tree, between parts without braces, those
with a lettered key are the objects of the tree.** -/
theorem found_text (hkey : Lettered key) {d : Doc} (hd : d.Correct floats) (htoken : ¬ d.IsToken)
    {before after : Str} (hbefore : 123 ∉ before) (hafter : 123 ∉ after) (hclosing : 125 ∉ after)
    (hfuel : d.text.length ≤ fuel) :
    (found floats fuel (before ++ d.text ++ after)).filter (keyed key) =
      d.objects.filter (keyed key) := by
  have hcovers : Covers floats fuel key d.text d.objects after :=
    covers_text hkey hd (fun h => absurd h htoken) hfuel (.free hclosing)
  rw [found, foundIn_append, foundIn_append, foundIn_of_notMem _ hbefore, foundIn_of_notMem _ hafter,
    List.nil_append, List.append_nil, List.append_nil]
  exact hcovers.found

end AI2Apps.JsonText
