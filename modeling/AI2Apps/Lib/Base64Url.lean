import AI2Apps.Lib.TextOrder

/-!
# Base64url without padding

`encode` and the canonical `decode`: a text is accepted only when encoding what
it decodes to gives the text back.

* `decode_encode`: the round trip.
-/

namespace AI2Apps.Base64Url

/-- The code point of a sextet. -/
def char (v : ℕ) : ℕ :=
  if v < 26 then 65 + v
  else if v < 52 then 97 + (v - 26)
  else if v < 62 then 48 + (v - 52)
  else if v = 62 then 45
  else 95

/-- The sextet of a code point; the characters that base64url replaces still
decode. -/
def value? (c : ℕ) : Option ℕ :=
  if 65 ≤ c ∧ c ≤ 90 then some (c - 65)
  else if 97 ≤ c ∧ c ≤ 122 then some (c - 97 + 26)
  else if 48 ≤ c ∧ c ≤ 57 then some (c - 48 + 52)
  else if c = 45 ∨ c = 43 then some 62
  else if c = 95 ∨ c = 47 then some 63
  else none

/-- `b64url_encode`. -/
def encode : List ℕ → Str
  | [] => []
  | [a] => [char (a / 4), char (a % 4 * 16)]
  | [a, b] => [char (a / 4), char (a % 4 * 16 + b / 16), char (b % 16 * 4)]
  | a :: b :: c :: rest =>
    char (a / 4) :: char (a % 4 * 16 + b / 16) :: char (b % 16 * 4 + c / 64) :: char (c % 64) ::
      encode rest

/-- `base64.b64decode`, whose last sextet may carry bits it drops. -/
def b64decode : Str → Option (List ℕ)
  | [] => some []
  | [_] => none
  | [w, x] => do
    let a ← value? w
    let b ← value? x
    return [a * 4 + b / 16]
  | [w, x, y] => do
    let a ← value? w
    let b ← value? x
    let c ← value? y
    return [a * 4 + b / 16, b % 16 * 16 + c / 4]
  | w :: x :: y :: z :: rest => do
    let a ← value? w
    let b ← value? x
    let c ← value? y
    let d ← value? z
    let tail ← b64decode rest
    return [a * 4 + b / 16, b % 16 * 16 + c / 4, c % 4 * 64 + d] ++ tail

/-- `b64url_decode`. -/
def decode (text : Str) : Option (List ℕ) := do
  let decoded ← b64decode text
  if encode decoded = text then some decoded else none

theorem value?_char : ∀ {v : ℕ}, v < 64 → value? (char v) = some v := by
  decide

theorem b64decode_encode : ∀ {bytes : List ℕ}, (∀ b ∈ bytes, b < 256) →
    b64decode (encode bytes) = some bytes
  | [], _ => rfl
  | [a], h => by
    have ha : a < 256 := h a (by simp)
    simp only [encode, b64decode, value?_char (show a / 4 < 64 by omega),
      value?_char (show a % 4 * 16 < 64 by omega), Option.bind_eq_bind, Option.bind_some]
    have h₁ : a / 4 * 4 + a % 4 * 16 / 16 = a := by omega
    rw [h₁]
    rfl
  | [a, b], h => by
    have ha : a < 256 := h a (by simp)
    have hb : b < 256 := h b (by simp)
    simp only [encode, b64decode, value?_char (show a / 4 < 64 by omega),
      value?_char (show a % 4 * 16 + b / 16 < 64 by omega),
      value?_char (show b % 16 * 4 < 64 by omega), Option.bind_eq_bind, Option.bind_some]
    have h₁ : a / 4 * 4 + (a % 4 * 16 + b / 16) / 16 = a := by omega
    have h₂ : (a % 4 * 16 + b / 16) % 16 * 16 + b % 16 * 4 / 4 = b := by omega
    rw [h₁, h₂]
    rfl
  | a :: b :: c :: rest, h => by
    have ha : a < 256 := h a (by simp)
    have hb : b < 256 := h b (by simp)
    have hc : c < 256 := h c (by simp)
    have hrest : b64decode (encode rest) = some rest :=
      b64decode_encode fun d hd => h d (by simp [hd])
    simp only [encode, b64decode, value?_char (show a / 4 < 64 by omega),
      value?_char (show a % 4 * 16 + b / 16 < 64 by omega),
      value?_char (show b % 16 * 4 + c / 64 < 64 by omega),
      value?_char (show c % 64 < 64 by omega), hrest, Option.bind_eq_bind, Option.bind_some]
    have h₁ : a / 4 * 4 + (a % 4 * 16 + b / 16) / 16 = a := by omega
    have h₂ : (a % 4 * 16 + b / 16) % 16 * 16 + (b % 16 * 4 + c / 64) / 4 = b := by omega
    have h₃ : (b % 16 * 4 + c / 64) % 4 * 64 + c % 64 = c := by omega
    rw [h₁, h₂, h₃]
    rfl

/-- **The round trip.** -/
theorem decode_encode {bytes : List ℕ} (h : ∀ b ∈ bytes, b < 256) :
    decode (encode bytes) = some bytes := by
  rw [decode, b64decode_encode h]
  exact if_pos rfl

end AI2Apps.Base64Url
