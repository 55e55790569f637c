import AI2Apps.Lib.TextOrder

/-!
# UTF-8

Strict UTF-8 between code points and bytes, both as natural numbers: `encode`
refuses a surrogate, `decode` refuses everything `encode` does not produce.

* `encode_append`: encoding is compatible with concatenation.
* `decode_encode`: what was encoded is decoded.
* `encode_of_scalars`, `scalars_of_decode`: what can be encoded, and what is decoded.
* `lt_of_mem_encode`: bytes are bytes, and an ASCII byte stands only for its own code point.
-/

namespace AI2Apps.Utf8

/-- The bytes of a code point. -/
def encodeChar (c : ℕ) : Option (List ℕ) :=
  if c < 0x80 then some [c]
  else if c < 0x800 then some [0xC0 + c / 64, 0x80 + c % 64]
  else if c < 0xD800 ∨ 0xE000 ≤ c ∧ c < 0x10000 then
    some [0xE0 + c / 4096, 0x80 + c / 64 % 64, 0x80 + c % 64]
  else if 0x10000 ≤ c ∧ c < 0x110000 then
    some [0xF0 + c / 262144, 0x80 + c / 4096 % 64, 0x80 + c / 64 % 64, 0x80 + c % 64]
  else none

/-- `text.encode("utf-8")`. -/
def encode : Str → Option (List ℕ)
  | [] => some []
  | c :: s => do
    let head ← encodeChar c
    let tail ← encode s
    return head ++ tail

/-- A continuation byte. -/
def tail (b : ℕ) : Bool := 0x80 ≤ b && b < 0xC0

/-- The code point of two bytes. -/
def two (b₀ b₁ : ℕ) : Option ℕ :=
  let c := (b₀ - 0xC0) * 64 + (b₁ - 0x80)
  if 0xC0 ≤ b₀ ∧ b₀ < 0xE0 ∧ tail b₁ ∧ 0x80 ≤ c then some c else none

/-- The code point of three bytes. -/
def three (b₀ b₁ b₂ : ℕ) : Option ℕ :=
  let c := (b₀ - 0xE0) * 4096 + (b₁ - 0x80) * 64 + (b₂ - 0x80)
  if 0xE0 ≤ b₀ ∧ b₀ < 0xF0 ∧ tail b₁ ∧ tail b₂ ∧ 0x800 ≤ c ∧ ¬ (0xD800 ≤ c ∧ c < 0xE000) then some c
  else none

/-- The code point of four bytes. -/
def four (b₀ b₁ b₂ b₃ : ℕ) : Option ℕ :=
  let c := (b₀ - 0xF0) * 262144 + (b₁ - 0x80) * 4096 + (b₂ - 0x80) * 64 + (b₃ - 0x80)
  if 0xF0 ≤ b₀ ∧ b₀ < 0xF8 ∧ tail b₁ ∧ tail b₂ ∧ tail b₃ ∧ 0x10000 ≤ c ∧ c < 0x110000 then some c
  else none

/-- `data.decode("utf-8")`. -/
def decode : List ℕ → Option Str
  | [] => some []
  | b₀ :: rest =>
    if b₀ < 0x80 then (decode rest).map (b₀ :: ·)
    else match rest with
      | [] => none
      | b₁ :: rest =>
        match two b₀ b₁ with
        | some c => (decode rest).map (c :: ·)
        | none =>
          match rest with
          | [] => none
          | b₂ :: rest =>
            match three b₀ b₁ b₂ with
            | some c => (decode rest).map (c :: ·)
            | none =>
              match rest with
              | [] => none
              | b₃ :: rest =>
                match four b₀ b₁ b₂ b₃ with
                | some c => (decode rest).map (c :: ·)
                | none => none

/-! ## Encoding -/

variable {s : Str} {bytes rest : List ℕ}

theorem encode_cons {c : ℕ} :
    encode (c :: s) = some bytes ↔
      ∃ head tail, encodeChar c = some head ∧ encode s = some tail ∧ bytes = head ++ tail := by
  rw [encode]
  cases encodeChar c <;> cases encode s <;> simp [eq_comm]

theorem encode_append {t : Str} :
    encode (s ++ t) = some bytes ↔
      ∃ left right, encode s = some left ∧ encode t = some right ∧ bytes = left ++ right := by
  induction s generalizing bytes with
  | nil => simp [encode]
  | cons c s ih =>
    rw [List.cons_append, encode_cons]
    constructor
    · rintro ⟨head, tail, hc, hst, rfl⟩
      obtain ⟨left, right, hs, ht, rfl⟩ := ih.mp hst
      exact ⟨head ++ left, right, encode_cons.mpr ⟨head, left, hc, hs, rfl⟩, ht,
        by rw [List.append_assoc]⟩
    · rintro ⟨left, right, hs, ht, rfl⟩
      obtain ⟨head, tail, hc, hs', rfl⟩ := encode_cons.mp hs
      exact ⟨head, tail ++ right, hc, ih.mpr ⟨tail, right, hs', ht, rfl⟩,
        by rw [List.append_assoc]⟩

/-- A text can be encoded when its parts can. -/
theorem isSome_encode_append (s t : Str) :
    (encode (s ++ t)).isSome = true ↔ (encode s).isSome = true ∧ (encode t).isSome = true := by
  simp only [Option.isSome_iff_exists]
  constructor
  · rintro ⟨bytes, h⟩
    obtain ⟨left, right, hs, ht, -⟩ := encode_append.mp h
    exact ⟨⟨left, hs⟩, right, ht⟩
  · rintro ⟨⟨left, hs⟩, right, ht⟩
    exact ⟨left ++ right, encode_append.mpr ⟨left, right, hs, ht, rfl⟩⟩

theorem isSome_encode_cons (c : ℕ) (s : Str) :
    (encode (c :: s)).isSome = true ↔ (encodeChar c).isSome = true ∧ (encode s).isSome = true := by
  rw [encode]
  cases encodeChar c <;> cases encode s <;> simp

/-- ASCII text is its own encoding. -/
theorem encode_ascii (h : ∀ c ∈ s, c < 0x80) : encode s = some s := by
  induction s with
  | nil => rfl
  | cons c s ih =>
    have hc : encodeChar c = some [c] := by rw [encodeChar, if_pos (h c (by simp))]
    exact encode_cons.mpr ⟨[c], s, hc, ih fun d hd => h d (List.mem_cons_of_mem c hd), rfl⟩

theorem lt_of_mem_encodeChar {c b : ℕ} (h : encodeChar c = some bytes) (hb : b ∈ bytes) :
    b < 256 ∧ (b < 0x80 → b = c) := by
  unfold encodeChar at h
  split at h
  · cases h
    rw [List.mem_singleton] at hb
    omega
  split at h
  · cases h
    simp only [List.mem_cons, List.not_mem_nil, or_false] at hb
    omega
  split at h
  · cases h
    simp only [List.mem_cons, List.not_mem_nil, or_false] at hb
    omega
  split at h
  · cases h
    simp only [List.mem_cons, List.not_mem_nil, or_false] at hb
    omega
  · cases h

/-- The bytes of a text are bytes, and the ASCII ones are among its code points. -/
theorem lt_of_mem_encode {b : ℕ} (h : encode s = some bytes) (hb : b ∈ bytes) :
    b < 256 ∧ (b < 0x80 → b ∈ s) := by
  induction s generalizing bytes with
  | nil =>
    cases h
    exact absurd hb List.not_mem_nil
  | cons c s ih =>
    obtain ⟨head, tail, hc, hs, rfl⟩ := encode_cons.mp h
    rcases List.mem_append.mp hb with hb | hb
    · obtain ⟨hlt, hascii⟩ := lt_of_mem_encodeChar hc hb
      exact ⟨hlt, fun h => by rw [hascii h]; exact List.mem_cons_self⟩
    · obtain ⟨hlt, hascii⟩ := ih hs hb
      exact ⟨hlt, fun h => List.mem_cons_of_mem c (hascii h)⟩

/-! ## The round trip -/

theorem decode_one {b₀ : ℕ} (h : b₀ < 0x80) :
    decode (b₀ :: rest) = (decode rest).map (b₀ :: ·) := by
  rw [decode.eq_def]
  simp only [h, if_true]

theorem decode_two {b₀ b₁ c : ℕ} (h : 0x80 ≤ b₀) (h2 : two b₀ b₁ = some c) :
    decode (b₀ :: b₁ :: rest) = (decode rest).map (c :: ·) := by
  rw [decode.eq_def]
  simp only [Nat.not_lt.mpr h, if_false, h2]

theorem decode_three {b₀ b₁ b₂ c : ℕ} (h : 0x80 ≤ b₀) (h2 : two b₀ b₁ = none) (h3 : three b₀ b₁ b₂ = some c) :
    decode (b₀ :: b₁ :: b₂ :: rest) = (decode rest).map (c :: ·) := by
  rw [decode.eq_def]
  simp only [Nat.not_lt.mpr h, if_false, h2, h3]

theorem decode_four {b₀ b₁ b₂ b₃ c : ℕ} (h : 0x80 ≤ b₀) (h2 : two b₀ b₁ = none) (h3 : three b₀ b₁ b₂ = none)
    (h4 : four b₀ b₁ b₂ b₃ = some c) :
    decode (b₀ :: b₁ :: b₂ :: b₃ :: rest) = (decode rest).map (c :: ·) := by
  rw [decode.eq_def]
  simp only [Nat.not_lt.mpr h, if_false, h2, h3, h4]

theorem tail_iff {b : ℕ} : tail b = true ↔ 0x80 ≤ b ∧ b < 0xC0 := by
  simp [tail]

theorem two_of_ge {b₀ b₁ : ℕ} (h : 0xE0 ≤ b₀) : two b₀ b₁ = none := by
  unfold two
  exact if_neg fun h' => by omega

theorem three_of_ge {b₀ b₁ b₂ : ℕ} (h : 0xF0 ≤ b₀) : three b₀ b₁ b₂ = none := by
  unfold three
  exact if_neg fun h' => by omega

theorem decode_encodeChar {c : ℕ} {head : List ℕ} (h : encodeChar c = some head) :
    decode (head ++ rest) = (decode rest).map (c :: ·) := by
  unfold encodeChar at h
  split at h
  · rename_i h1
    cases h
    exact decode_one h1
  split at h
  · rename_i h1 h2
    cases h
    refine decode_two (by omega) ?_
    have hc : (0xC0 + c / 64 - 0xC0) * 64 + (0x80 + c % 64 - 0x80) = c := by omega
    unfold two
    rw [hc, if_pos ⟨by omega, by omega, tail_iff.mpr (by omega), by omega⟩]
  split at h
  · rename_i h1 h2 h3
    cases h
    refine decode_three (by omega) (two_of_ge (by omega)) ?_
    have hc : (0xE0 + c / 4096 - 0xE0) * 4096 + (0x80 + c / 64 % 64 - 0x80) * 64 +
        (0x80 + c % 64 - 0x80) = c := by omega
    unfold three
    rw [hc, if_pos ⟨by omega, by omega, tail_iff.mpr (by omega), tail_iff.mpr (by omega), by omega,
      by omega⟩]
  split at h
  · rename_i h1 h2 h3 h4
    cases h
    refine decode_four (by omega) (two_of_ge (by omega)) (three_of_ge (by omega)) ?_
    have hc : (0xF0 + c / 262144 - 0xF0) * 262144 + (0x80 + c / 4096 % 64 - 0x80) * 4096 +
        (0x80 + c / 64 % 64 - 0x80) * 64 + (0x80 + c % 64 - 0x80) = c := by omega
    unfold four
    rw [hc, if_pos ⟨by omega, by omega, tail_iff.mpr (by omega), tail_iff.mpr (by omega),
      tail_iff.mpr (by omega), by omega, by omega⟩]
  · cases h

/-- **What was encoded is decoded.** -/
theorem decode_encode (h : encode s = some bytes) :
    decode bytes = some s := by
  induction s generalizing bytes with
  | nil =>
    cases h
    rfl
  | cons c s ih =>
    obtain ⟨head, tail, hc, hs, rfl⟩ := encode_cons.mp h
    rw [decode_encodeChar hc, ih hs]
    rfl

/-! ## Code points that are no surrogates -/

theorem isSome_encodeChar {c : ℕ} (h : c < 0xD800 ∨ 0xE000 ≤ c ∧ c < 0x110000) :
    ∃ bytes, encodeChar c = some bytes ∧ bytes.length ≤ 4 := by
  unfold encodeChar
  split_ifs with h₁ h₂ h₃ h₄
  · exact ⟨_, rfl, by simp⟩
  · exact ⟨_, rfl, by simp⟩
  · exact ⟨_, rfl, by simp⟩
  · exact ⟨_, rfl, by simp⟩
  · omega

/-- Text of code points that are no surrogates. -/
theorem encode_of_scalars : ∀ {s : Str}, (∀ c ∈ s, c < 0xD800 ∨ 0xE000 ≤ c ∧ c < 0x110000) →
    ∃ bytes, encode s = some bytes ∧ bytes.length ≤ 4 * s.length
  | [], _ => ⟨[], rfl, le_rfl⟩
  | c :: s, h => by
    obtain ⟨head, hhead, hlen⟩ := isSome_encodeChar (h c (List.mem_cons_self ..))
    obtain ⟨rest, hrest, hlen'⟩ := encode_of_scalars fun d hd => h d (List.mem_cons_of_mem _ hd)
    refine ⟨head ++ rest, encode_cons.mpr ⟨head, rest, hhead, hrest, rfl⟩, ?_⟩
    rw [List.length_append, List.length_cons]
    omega

theorem scalars_cons {text : Str} {decoded : Option Str} {c n k : ℕ}
    (hc : c < 0xD800 ∨ 0xE000 ≤ c ∧ c < 0x110000)
    (ih : ∀ text, decoded = some text →
      (∀ c ∈ text, c < 0xD800 ∨ 0xE000 ≤ c ∧ c < 0x110000) ∧ text.length ≤ n)
    (hk : n + 1 ≤ k) (h : decoded.map (c :: ·) = some text) :
    (∀ c ∈ text, c < 0xD800 ∨ 0xE000 ≤ c ∧ c < 0x110000) ∧ text.length ≤ k := by
  obtain ⟨rest, hrest, rfl⟩ := Option.map_eq_some_iff.mp h
  obtain ⟨hscalars, hlen⟩ := ih rest hrest
  refine ⟨List.forall_mem_cons.mpr ⟨hc, hscalars⟩, ?_⟩
  rw [List.length_cons]
  omega

/-- What is decoded has no surrogates, and no more code points than bytes. -/
theorem scalars_of_decode : ∀ (bytes : List ℕ) (text : Str), decode bytes = some text →
    (∀ c ∈ text, c < 0xD800 ∨ 0xE000 ≤ c ∧ c < 0x110000) ∧ text.length ≤ bytes.length := by
  intro bytes
  induction bytes using decode.induct with
  | case1 =>
    intro text h
    obtain rfl := Option.some.inj h
    simp
  | case2 b₀ rest h₀ ih =>
    intro text h
    rw [decode_one h₀] at h
    exact scalars_cons (by omega) ih (by simp) h
  | case3 b₀ h₀ =>
    intro text h
    rw [decode.eq_def] at h
    simp [h₀] at h
  | case4 b₀ h₀ b₁ rest c hc ih =>
    intro text h
    rw [decode_two (not_lt.mp h₀) hc] at h
    unfold two at hc
    dsimp only at hc
    split_ifs at hc with hrange
    obtain rfl := Option.some.inj hc
    simp only [tail_iff] at hrange
    exact scalars_cons (by omega) ih (by simp) h
  | case5 b₀ h₀ b₁ h₂ =>
    intro text h
    rw [decode.eq_def] at h
    simp [h₀, h₂] at h
  | case6 b₀ h₀ b₁ h₂ b₂ rest c hc ih =>
    intro text h
    rw [decode_three (not_lt.mp h₀) h₂ hc] at h
    unfold three at hc
    dsimp only at hc
    split_ifs at hc with hrange
    obtain rfl := Option.some.inj hc
    simp only [tail_iff] at hrange
    exact scalars_cons (by omega) ih (by simp) h
  | case7 b₀ h₀ b₁ h₂ b₂ h₃ =>
    intro text h
    rw [decode.eq_def] at h
    simp [h₀, h₂, h₃] at h
  | case8 b₀ h₀ b₁ h₂ b₂ h₃ b₃ rest c hc ih =>
    intro text h
    rw [decode_four (not_lt.mp h₀) h₂ h₃ hc] at h
    unfold four at hc
    dsimp only at hc
    split_ifs at hc with hrange
    obtain rfl := Option.some.inj hc
    exact scalars_cons (by omega) ih (by simp) h
  | case9 b₀ h₀ b₁ h₂ b₂ h₃ b₃ rest h₄ =>
    intro text h
    rw [decode.eq_def] at h
    simp [h₀, h₂, h₃, h₄] at h

end AI2Apps.Utf8
