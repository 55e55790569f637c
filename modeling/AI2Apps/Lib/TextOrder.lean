import Mathlib.Data.List.Basic
import Mathlib.Data.List.Infix
import Mathlib.Data.List.Lex
import Mathlib.Order.Lattice
import Mathlib.Tactic.Ring
import Mathlib.Tactic.Linarith

/-!
# Text as code points, and the order of fixed-width decimal text

Text is a list of Unicode code points.  A timestamp compared as text is compared
field by field, because every field is printed with a fixed number of digits;
the two facts that make that precise are here: concatenations of equally long
texts compare piecewise, and a number printed with `k` digits compares as the
number.

* `Str`, `str`: text, and the text of a literal.
* `append_lt_append_iff`: piecewise comparison.
* `decimal`, `decimal_append_lt_iff`: fixed-width decimal fields and their order.
-/

namespace AI2Apps

/-- Text as its Unicode code points.  Lone surrogates are code points too, as
they are in the strings of the modelled language. -/
abbrev Str := List ℕ

/-- Texts that are compared as equal are equal. -/
instance Str.lawfulBEq : LawfulBEq Str := inferInstanceAs (LawfulBEq (List ℕ))

/-- The code points of an ASCII literal: they are its UTF-8 bytes. -/
def str (s : String) : Str := s.toByteArray.data.toList.map UInt8.toNat

namespace TextOrder

/-- `str.isspace` of one code point. -/
def isWhitespace (c : ℕ) : Bool :=
  (9 ≤ c && c ≤ 13) || (28 ≤ c && c ≤ 32) || c = 133 || c = 160 || c = 5760 ||
    (8192 ≤ c && c ≤ 8202) || c = 8232 || c = 8233 || c = 8239 || c = 8287 || c = 12288

/-- `str.strip`. -/
def strip (s : Str) : Str :=
  ((s.dropWhile isWhitespace).reverse.dropWhile isWhitespace).reverse

/-! ## Concatenations -/

/-- Concatenations whose first parts are equally long compare piecewise. -/
theorem append_lt_append_iff :
    ∀ {l₁ l₂ r₁ r₂ : Str}, l₁.length = l₂.length →
      (l₁ ++ r₁ < l₂ ++ r₂ ↔ l₁ < l₂ ∨ l₁ = l₂ ∧ r₁ < r₂)
  | [], [], r₁, r₂, _ => by simp
  | a :: l₁, b :: l₂, r₁, r₂, hl => by
    have hl' : l₁.length = l₂.length := by simpa using hl
    rw [List.cons_append, List.cons_append, List.cons_lt_cons_iff, List.cons_lt_cons_iff,
      append_lt_append_iff hl']
    constructor
    · rintro (h | ⟨rfl, h | ⟨rfl, h⟩⟩)
      · exact Or.inl (Or.inl h)
      · exact Or.inl (Or.inr ⟨rfl, h⟩)
      · exact Or.inr ⟨rfl, h⟩
    · rintro ((h | ⟨rfl, h⟩) | ⟨h, h'⟩)
      · exact Or.inl h
      · exact Or.inr ⟨rfl, Or.inl h⟩
      · obtain ⟨rfl, rfl⟩ := List.cons.inj h
        exact Or.inr ⟨rfl, Or.inr ⟨rfl, h'⟩⟩

/-- A common separator does not change a comparison. -/
@[simp] theorem cons_lt_cons_same (c : ℕ) (r₁ r₂ : Str) : c :: r₁ < c :: r₂ ↔ r₁ < r₂ := by
  rw [List.cons_lt_cons_iff]
  constructor
  · rintro (h | ⟨-, h⟩)
    · exact absurd h (lt_irrefl c)
    · exact h
  · exact fun h => Or.inr ⟨rfl, h⟩

/-! ## Decimal fields -/

/-- The code point of a decimal digit. -/
def digit (d : ℕ) : ℕ := 48 + d

/-- `n` printed with exactly `k` decimal digits, most significant first. -/
def decimal : ℕ → ℕ → Str
  | 0, _ => []
  | k + 1, n => decimal k (n / 10) ++ [digit (n % 10)]

@[simp] theorem length_decimal (k n : ℕ) : (decimal k n).length = k := by
  induction k generalizing n with
  | zero => rfl
  | succ k ih => simp [decimal, ih]

/-- Numbers with the same `k` digits are the same number. -/
theorem decimal_inj {k a b : ℕ} (ha : a < 10 ^ k) (hb : b < 10 ^ k)
    (h : decimal k a = decimal k b) : a = b := by
  induction k generalizing a b with
  | zero => rw [pow_zero] at ha hb; omega
  | succ k ih =>
    rw [pow_succ] at ha hb
    obtain ⟨hhi, hlo⟩ := List.append_inj h (by simp)
    have hq : a / 10 = b / 10 := ih (by omega) (by omega) hhi
    have hr := (List.cons.inj hlo).1
    rw [digit, digit] at hr
    omega

/-- **Fixed-width decimals compare as numbers.** -/
theorem decimal_lt_decimal_iff {k a b : ℕ} (ha : a < 10 ^ k) (hb : b < 10 ^ k) :
    decimal k a < decimal k b ↔ a < b := by
  induction k generalizing a b with
  | zero =>
    rw [pow_zero] at ha hb
    have hab : ¬ a < b := by omega
    simp [decimal, hab]
  | succ k ih =>
    rw [pow_succ] at ha hb
    rw [decimal, decimal, append_lt_append_iff (by simp), ih (by omega) (by omega),
      List.cons_lt_cons_iff, digit, digit]
    constructor
    · rintro (h | ⟨h, h' | ⟨-, h'⟩⟩)
      · omega
      · have hq := decimal_inj (by omega) (by omega) h
        omega
      · exact absurd h' (List.not_lt_nil _)
    · intro h
      by_cases hq : a / 10 < b / 10
      · exact Or.inl hq
      · have hq' : a / 10 = b / 10 := by omega
        exact Or.inr ⟨by rw [hq'], Or.inl (by omega)⟩

/-- A decimal field followed by more text: the field decides, then the rest. -/
theorem decimal_append_lt_iff {k a b : ℕ} {r₁ r₂ : Str} (ha : a < 10 ^ k) (hb : b < 10 ^ k) :
    decimal k a ++ r₁ < decimal k b ++ r₂ ↔ a < b ∨ a = b ∧ r₁ < r₂ := by
  rw [append_lt_append_iff (by simp), decimal_lt_decimal_iff ha hb]
  constructor
  · rintro (h | ⟨h, h'⟩)
    · exact Or.inl h
    · exact Or.inr ⟨decimal_inj ha hb h, h'⟩
  · rintro (h | ⟨rfl, h'⟩)
    · exact Or.inl h
    · exact Or.inr ⟨rfl, h'⟩

end TextOrder

end AI2Apps
