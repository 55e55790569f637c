import AI2Apps.Omlx.ThinkingBudget
import Mathlib.Tactic.IntervalCases

/-!
# The law of the thinking budget

What a run of `ThinkingBudgetProcessor` is to do, said about positions and the tokens that were
sampled there.

* `Begins`, `Idle`: where thinking begins, and where there is none.
* `ForcePoint`, `ClosePoint`: how thinking ends.
* `boundary_iff`: the boundaries of a UTF-8 text are where its bytes decode.
* `KeepsLaw`: the law.
* `Regular`: the runs in which no wait for the end of a character is left over.
* `budget_law`: in those runs the law is kept.
* `law_broken`: runs that are not regular, and break it.
-/

namespace AI2Apps.Omlx

variable (p : Processor) (g : ℕ → ℕ)

/-! ## Boundaries and close tags -/

/-- Whether the tokens before a position end a character, and the bytes that are pending. -/
def utf8 : ℕ → Bool × List ℕ
  | 0 => (true, [])
  | n + 1 => p.isUtf8Complete (utf8 n).2 (g n)

/-- The position is at a boundary of characters. -/
def Boundary (n : ℕ) : Prop := (utf8 p g n).1 = true

/-- The tokens from one position up to another. -/
def slice (s n : ℕ) : List ℕ := (List.range' s (n - s)).map g

/-- The token completes a close tag that began after thinking did. -/
def Closes (s c : ℕ) : Prop := p.thinkEndIds <:+ slice g s (c + 1)

/-- Forcing is due: the first boundary at or after the last position of the budget, where thinking that
began at `s` has not been closed before. -/
structure ForcePoint (s f : ℕ) : Prop where
  spent : s + p.budget ≤ f + 1
  boundary : Boundary p g f
  first : ∀ j, s + p.budget ≤ j + 1 → j < f → ¬ Boundary p g j
  unclosed : ∀ c, s ≤ c → c < f → ¬ Closes p g s c

/-- The model closes the thinking itself, before forcing is due. -/
structure ClosePoint (s c : ℕ) : Prop where
  after : s ≤ c
  closes : Closes p g s c
  first : ∀ c', s ≤ c' → c' < c → ¬ Closes p g s c'
  unforced : ∀ j, s + p.budget ≤ j + 1 → j ≤ c → ¬ Boundary p g j

mutual

/-- Thinking begins at a position: at the first, and after a token that starts it. -/
inductive Begins : ℕ → Prop
  | first : Begins 0
  | again {n : ℕ} (h : Idle n) (hstart : p.thinkStartId = some (g n)) : Begins (n + 1)

/-- There is no thinking at a position: it was closed, or all that closes it was forced. -/
inductive Idle : ℕ → Prop
  | closed {s c : ℕ} (h : Begins s) (hclose : ClosePoint p g s c) : Idle (c + 1)
  | forced {s f : ℕ} (h : Begins s) (hforce : ForcePoint p g s f) : Idle (f + p.forceSequence.length)
  | stays {n : ℕ} (h : Idle n) (hstart : p.thinkStartId ≠ some (g n)) : Idle (n + 1)

end

/-! ## The law -/

variable (prompt : List ℕ)

/-- The law, for the positions up to the `N`-th. -/
structure KeepsLaw (N : ℕ) : Prop where
  /-- While thinking is open and forcing not due, the logits stay as they are. -/
  thinking : ∀ s i, Begins p g s → s ≤ i → i ≤ N → (∀ c, s ≤ c → c < i → ¬ Closes p g s c) →
    (∀ j, s + p.budget ≤ j + 1 → j ≤ i → ¬ Boundary p g j) → p.effect prompt g i = .keep
  /-- Where forcing is due, the tokens of the force sequence are forced one after the other. -/
  forcing : ∀ s f k target, Begins p g s → ForcePoint p g s f → f + k ≤ N →
    p.forceSequence[k]? = some target → p.effect prompt g (f + k) = .force target
  /-- Without thinking the logits stay as they are. -/
  idle : ∀ n, Idle p g n → n ≤ N → p.effect prompt g n = .keep

/-- Each sampled token is the forced one where one is forced. -/
def Follows (N : ℕ) : Prop := ∀ n t, n < N → p.effect prompt g n = .force t → g n = t

/-- No wait for the end of a character loses a close tag or is left over. -/
structure Regular (N : ℕ) : Prop where
  /-- The token that starts thinking again is not the token `0`. -/
  start_ne_zero : ∀ n, Idle p g n → n < N → p.thinkStartId = some (g n) → g n ≠ 0
  /-- A close tag that ends the wait began after it did. -/
  not_across : ∀ s c, Begins p g s → ClosePoint p g s c → c < N → s + p.budget ≤ c + 1 →
    s + p.budget + p.thinkEndIds.length ≤ c + 2
  /-- Thinking does not begin again after a close tag ended the wait. -/
  not_again : ∀ s c n, Begins p g s → ClosePoint p g s c → s + p.budget ≤ c + 1 → c < n → n < N →
    Idle p g n → p.thinkStartId ≠ some (g n)

variable {p g prompt}

/-! ## Slices -/

theorem slice_self (s : ℕ) : slice g s s = [] := by
  unfold slice
  rw [Nat.sub_self]
  rfl

variable {n s : ℕ} {st : BudgetState}

theorem slice_succ (h : s ≤ n) : slice g s (n + 1) = slice g s n ++ [g n] := by
  unfold slice
  rw [show n + 1 - s = (n - s) + 1 by omega, List.range'_concat, List.map_append]
  simp [show s + (n - s) = n by omega]

theorem length_slice (s n : ℕ) : (slice g s n).length = n - s := by
  unfold slice
  rw [List.length_map, List.length_range']

theorem slice_append {w : ℕ} (hs : s ≤ w) (hw : w ≤ n) : slice g s n = slice g s w ++ slice g w n := by
  induction n, hw using Nat.le_induction with
  | base => rw [slice_self, List.append_nil]
  | succ n hw ih => rw [slice_succ (hs.trans hw), slice_succ hw, ih, List.append_assoc]

/-- The window holds the last tokens of a slice. -/
theorem window_rtake (l : List ℕ) (token : ℕ) :
    p.window (l.rtake p.thinkEndIds.length) token = (l ++ [token]).rtake p.thinkEndIds.length := by
  unfold Processor.window List.rtake
  dsimp only
  rw [List.length_append, List.length_append, List.length_drop, List.length_singleton]
  by_cases h : p.thinkEndIds.length < l.length - (l.length - p.thinkEndIds.length) + 1
  · rw [if_pos h, ← List.drop_one, ← List.drop_append_of_le_length (by omega), List.drop_drop]
    congr 1
    omega
  · rw [if_neg h, ← List.drop_append_of_le_length (by omega)]
    congr 1
    omega

theorem rtake_eq_iff {l : List ℕ} : l.rtake p.thinkEndIds.length = p.thinkEndIds ↔ p.thinkEndIds <:+ l := by
  rw [List.suffix_iff_eq_drop]
  exact eq_comm

/-! ## One token -/

/-- A token completes the close tag in the window. -/
def Detects (p : Processor) (recent : List ℕ) (token : ℕ) : Prop :=
  if p.thinkEndIds.length = 1 then p.thinkEndIds = [token] else p.window recent token = p.thinkEndIds

/-- The window holds the tokens from a position on. -/
def Holds (p : Processor) (g : ℕ → ℕ) (s n : ℕ) (recent : List ℕ) : Prop :=
  p.thinkEndIds.length ≠ 1 → recent = (slice g s n).rtake p.thinkEndIds.length

theorem holds_self (s : ℕ) : Holds p g s s [] := fun _ => by
  rw [slice_self, List.rtake_nil]

theorem detects_iff {recent : List ℕ} (hs : s ≤ n) (h : Holds p g s n recent) :
    Detects p recent (g n) ↔ p.thinkEndIds <:+ slice g s (n + 1) := by
  unfold Detects
  rw [slice_succ hs]
  split_ifs with hone
  · obtain ⟨token, htoken⟩ := List.length_eq_one_iff.1 hone
    rw [htoken, List.singleton_suffix_append_singleton_iff, List.singleton_inj]
  · rw [h hone, window_rtake, rtake_eq_iff]

theorem holds_succ {recent : List ℕ} (hs : s ≤ n) (h : Holds p g s n recent) :
    Holds p g s (n + 1) (if p.thinkEndIds.length = 1 then recent else p.window recent (g n)) := by
  intro hone
  rw [if_neg hone, h hone, window_rtake, slice_succ hs]

open Classical in
/-- The state of a token that is accepted while thinking is open and nothing is forced. -/
theorem updateState_open {st : BudgetState} {token : ℕ} (hdone : st.done = false)
    (hforcing : st.forcing = false) :
    p.updateState st token =
      let s := { st with
        lastTokenUtf8Complete := (p.isUtf8Complete st.pendingUtf8 token).1
        pendingUtf8 := (p.isUtf8Complete st.pendingUtf8 token).2
        recentTokens := if p.thinkEndIds.length = 1 then st.recentTokens
          else p.window st.recentTokens token }
      if Detects p st.recentTokens token then s.close else p.settle s token := by
  unfold Detects Processor.updateState
  dsimp only
  rw [hdone, hforcing, if_neg nofun, if_neg nofun]
  by_cases hone : p.thinkEndIds.length = 1
  · simp only [if_pos hone]
  · simp only [if_neg hone]

/-! ## Characters -/

theorem utf8_prepare (st : BudgetState) :
    (p.prepare st).2.lastTokenUtf8Complete = st.lastTokenUtf8Complete ∧
      (p.prepare st).2.pendingUtf8 = st.pendingUtf8 := by
  unfold Processor.prepare BudgetState.beginForcing
  dsimp only
  split_ifs <;> exact ⟨rfl, rfl⟩

theorem utf8_updateState (st : BudgetState) (token : ℕ) :
    (p.updateState st token).lastTokenUtf8Complete = (p.isUtf8Complete st.pendingUtf8 token).1 ∧
      (p.updateState st token).pendingUtf8 = (p.isUtf8Complete st.pendingUtf8 token).2 := by
  unfold Processor.updateState Processor.settle BudgetState.reenter BudgetState.close BudgetState.beginForcing
  dsimp only
  split_ifs <;> exact ⟨rfl, rfl⟩

/-- The processor knows the boundaries. -/
theorem utf8_accepted (n : ℕ) :
    (p.accepted prompt g n).lastTokenUtf8Complete = (utf8 p g n).1 ∧
      (p.accepted prompt g n).pendingUtf8 = (utf8 p g n).2 := by
  induction n with
  | zero =>
    rw [p.accepted_zero]
    exact ⟨rfl, rfl⟩
  | succ n ih =>
    rw [p.accepted_succ]
    have hpending := (@utf8_prepare p (p.accepted prompt g n)).2.trans ih.2
    refine ⟨(utf8_updateState _ _).1.trans ?_, (utf8_updateState _ _).2.trans ?_⟩
    · rw [hpending]
      rfl
    · rw [hpending]
      rfl

/-- The bytes of the tokens before a position. -/
def bytesBefore (d : ℕ → List ℕ) (n : ℕ) : List ℕ := (List.range n).flatMap d

/-- In a text that is UTF-8 as far as it goes, the boundaries are where it ends with a character. -/
theorem boundary_iff {tokenToPiece : ℕ → Piece} {d : ℕ → List ℕ} (hpieces : p.tokenToPiece = some tokenToPiece)
    (hbytes : ∀ i, tokenToPiece (g i) = .bytes (d i)) : ∀ n,
    (∀ i ≤ n, ∀ stop, decodeError (bytesBefore d i) ≠ some (.invalid stop)) →
      (Boundary p g n ↔ decodeError (bytesBefore d n) = none) ∧
        ∃ front, bytesBefore d n = front ++ (utf8 p g n).2 ∧ decodeError front = none := by
  intro n
  induction n with
  | zero => exact fun _ => ⟨⟨fun _ => rfl, fun _ => rfl⟩, [], rfl, rfl⟩
  | succ n ih =>
    intro hvalid
    obtain ⟨-, front, hfront, hwhole⟩ := ih fun i hi => hvalid i (by omega)
    have hnext : bytesBefore d (n + 1) = front ++ ((utf8 p g n).2 ++ d n) := by
      rw [← List.append_assoc, ← hfront, bytesBefore, List.range_succ, List.flatMap_append]
      simp [bytesBefore]
    have herror := decodeError_append hwhole ((utf8 p g n).2 ++ d n)
    rw [← hnext] at herror
    have hstep : utf8 p g (n + 1) = p.isUtf8Complete (utf8 p g n).2 (g n) := rfl
    unfold Processor.isUtf8Complete at hstep
    rw [hpieces] at hstep
    dsimp only at hstep
    rw [hbytes] at hstep
    dsimp only at hstep
    unfold Boundary
    cases hpending : decodeError ((utf8 p g n).2 ++ d n) with
    | none =>
      rw [hpending] at hstep herror
      rw [hstep, herror]
      exact ⟨⟨fun _ => rfl, fun _ => rfl⟩, _, (List.append_nil _).symm, herror⟩
    | some e =>
      rw [hpending] at hstep herror
      cases e with
      | unexpectedEnd =>
        rw [hstep, herror]
        exact ⟨⟨nofun, nofun⟩, front, hnext, hwhole⟩
      | invalid stop => exact absurd herror (hvalid (n + 1) le_rfl _)

/-! ## The phases of a run -/

/-- Thinking has been open since a position, and its tokens are counted. -/
structure Counting (p : Processor) (g : ℕ → ℕ) (s n : ℕ) (st : BudgetState) : Prop where
  inThinking : st.inThinking = true
  forcing : st.forcing = false
  done : st.done = false
  waiting : st.waitingUtf8 = false
  count : st.thinkingTokens = n - s
  holds : Holds p g s n st.recentTokens

/-- The end of a character has been waited for since a position. -/
structure Waiting (p : Processor) (g : ℕ → ℕ) (w n : ℕ) (st : BudgetState) : Prop where
  forcing : st.forcing = false
  done : st.done = false
  waiting : st.waitingUtf8 = true
  holds : Holds p g w n st.recentTokens

/-- Some tokens of the force sequence have been forced. -/
structure Forcing (k : ℕ) (st : BudgetState) : Prop where
  forcing : st.forcing = true
  done : st.done = false
  waiting : st.waitingUtf8 = false
  index : st.forceIdx = k

/-- There is no thinking. -/
structure Ended (st : BudgetState) : Prop where
  done : st.done = true
  forcing : st.forcing = false

theorem Ended.prepare (h : Ended st) : p.prepare st = (.keep, st) := by
  unfold Processor.prepare
  rw [if_pos h.done]

theorem Forcing.prepare {k : ℕ} (h : Forcing k st) :
    p.prepare st = (p.forceNextToken st, st) := by
  unfold Processor.prepare
  simp [h.done, h.forcing]

theorem Forcing.forceNextToken {k target : ℕ} (h : Forcing k st) (htarget : p.forceSequence[k]? = some target) :
    p.forceNextToken st = .force target := by
  unfold Processor.forceNextToken
  rw [h.index, htarget]

theorem Waiting.prepare {w : ℕ} (h : Waiting p g w n st) :
    p.prepare st = (.keep, st) := by
  unfold Processor.prepare
  simp [h.done, h.forcing, h.waiting]

/-- A call while thinking is counted. -/
theorem Counting.prepare_eq (h : Counting p g s n st) :
    p.prepare st =
      let st := { st with thinkingTokens := st.thinkingTokens + 1 }
      if p.budget ≤ st.thinkingTokens then
        if st.lastTokenUtf8Complete then (p.forceNextToken st.beginForcing, st.beginForcing)
        else (.keep, { st with waitingUtf8 := true, recentTokens := [] })
      else (.keep, st) := by
  unfold Processor.prepare
  rw [if_neg (by simp [h.done]), if_neg (by simp [h.forcing]), if_neg (by simp [h.waiting]),
    if_pos h.inThinking]

/-- Before the budget is spent nothing happens. -/
theorem Counting.prepare (h : Counting p g s n st) (hs : s ≤ n) (hn : n + 1 < s + p.budget) :
    p.prepare st = (.keep, { st with thinkingTokens := st.thinkingTokens + 1 }) := by
  rw [h.prepare_eq]
  dsimp only
  rw [if_neg (by have := h.count; omega)]

/-- When the budget is spent at a boundary, forcing begins. -/
theorem Counting.prepare_force (h : Counting p g s n st) (hs : s ≤ n) (hn : s + p.budget ≤ n + 1)
    (hcomplete : st.lastTokenUtf8Complete = true) :
    (p.prepare st).1 = p.forceNextToken (p.prepare st).2 ∧ Forcing 0 (p.prepare st).2 := by
  rw [h.prepare_eq]
  dsimp only
  rw [if_pos (by have := h.count; omega), if_pos hcomplete]
  exact ⟨rfl, rfl, h.done, h.waiting, rfl⟩

/-- When it is spent within a character, the wait begins. -/
theorem Counting.prepare_wait (h : Counting p g s n st) (hs : s ≤ n) (hn : s + p.budget ≤ n + 1)
    (hcomplete : ¬ st.lastTokenUtf8Complete = true) :
    (p.prepare st).1 = .keep ∧ Waiting p g n n (p.prepare st).2 := by
  rw [h.prepare_eq]
  dsimp only
  rw [if_pos (by have := h.count; omega), if_neg hcomplete]
  exact ⟨rfl, h.forcing, h.done, rfl, holds_self n⟩

/-! ## The next token -/

section Tokens

variable {n : ℕ}

theorem Ended.next (h : Ended (p.accepted prompt g n)) (hstart : p.startsThinking (g n) = false) :
    Ended (p.accepted prompt g (n + 1)) ∧
      (p.accepted prompt g (n + 1)).waitingUtf8 = (p.accepted prompt g n).waitingUtf8 := by
  rw [p.accepted_succ, h.prepare]
  unfold Processor.updateState
  dsimp only
  rw [if_pos h.done, hstart]
  exact ⟨⟨h.done, h.forcing⟩, rfl⟩

/-- Thinking begins again where nothing is left of a wait. -/
theorem Ended.again (h : Ended (p.accepted prompt g n)) (hstart : p.startsThinking (g n) = true)
    (hwaiting : (p.accepted prompt g n).waitingUtf8 = false) :
    Counting p g (n + 1) (n + 1) (p.accepted prompt g (n + 1)) := by
  rw [p.accepted_succ, h.prepare]
  unfold Processor.updateState
  dsimp only
  rw [if_pos h.done, if_pos hstart]
  exact ⟨rfl, h.forcing, rfl, hwaiting, (Nat.sub_self _).symm, holds_self _⟩

theorem Forcing.next {k : ℕ} (h : Forcing k (p.prepare (p.accepted prompt g n)).2) :
    (k + 1 < p.forceSequence.length → Forcing (k + 1) (p.accepted prompt g (n + 1))) ∧
      (k + 1 = p.forceSequence.length → Ended (p.accepted prompt g (n + 1)) ∧
        (p.accepted prompt g (n + 1)).waitingUtf8 = false) := by
  rw [p.accepted_succ]
  generalize (p.prepare (p.accepted prompt g n)).2 = st at h
  unfold Processor.updateState
  dsimp only
  rw [if_neg (by simp [h.done]), if_pos h.forcing, h.index]
  constructor
  · intro hk
    rw [if_neg (by omega)]
    exact ⟨h.forcing, h.done, h.waiting, rfl⟩
  · intro hk
    rw [if_pos (by omega)]
    exact ⟨⟨rfl, rfl⟩, h.waiting⟩

theorem Counting.next (h : Counting p g s n (p.accepted prompt g n)) (hs : s ≤ n) (hn : n + 1 < s + p.budget) :
    (Closes p g s n → Ended (p.accepted prompt g (n + 1)) ∧
        (p.accepted prompt g (n + 1)).waitingUtf8 = false) ∧
      (¬ Closes p g s n → Counting p g s (n + 1) (p.accepted prompt g (n + 1))) := by
  rw [p.accepted_succ, h.prepare hs hn]
  generalize p.accepted prompt g n = st at h
  have hopen := @updateState_open p { st with thinkingTokens := st.thinkingTokens + 1 } (g n) h.done h.forcing
  dsimp only at hopen ⊢
  rw [hopen]
  unfold Closes
  rw [← detects_iff hs h.holds]
  constructor
  · intro hdetects
    rw [if_pos hdetects]
    exact ⟨⟨rfl, h.forcing⟩, h.waiting⟩
  · intro hdetects
    rw [if_neg hdetects]
    unfold Processor.settle
    dsimp only
    rw [if_neg (by simp [h.waiting]), if_neg (by simp [h.inThinking])]
    refine ⟨h.inThinking, h.forcing, h.done, h.waiting, ?_, holds_succ hs h.holds⟩
    have := h.count
    show st.thinkingTokens + 1 = n + 1 - s
    omega

/-- In the wait a close tag is seen if it began after the wait did. -/
theorem Waiting.next {w : ℕ} (h : Waiting p g w n (p.prepare (p.accepted prompt g n)).2) (hw : w ≤ n) :
    (Closes p g w n → Ended (p.accepted prompt g (n + 1))) ∧
      (¬ Closes p g w n → Boundary p g (n + 1) → Forcing 0 (p.accepted prompt g (n + 1))) ∧
      (¬ Closes p g w n → ¬ Boundary p g (n + 1) → Waiting p g w (n + 1) (p.accepted prompt g (n + 1))) := by
  have hpending := (@utf8_prepare p (p.accepted prompt g n)).2.trans (@utf8_accepted p g prompt n).2
  rw [p.accepted_succ]
  generalize (p.prepare (p.accepted prompt g n)).2 = st at h hpending ⊢
  rw [updateState_open h.done h.forcing]
  dsimp only
  unfold Closes
  rw [← detects_iff hw h.holds]
  refine ⟨fun hdetects => ?_, fun hdetects hboundary => ?_, fun hdetects hboundary => ?_⟩
  · rw [if_pos hdetects]
    exact ⟨rfl, h.forcing⟩
  · rw [if_neg hdetects]
    unfold Processor.settle
    dsimp only
    rw [if_pos h.waiting, hpending, if_pos (show (p.isUtf8Complete (utf8 p g n).2 (g n)).1 = true from hboundary)]
    exact ⟨rfl, h.done, rfl, rfl⟩
  · rw [if_neg hdetects]
    unfold Processor.settle
    dsimp only
    rw [if_pos h.waiting, hpending,
      if_neg (show ¬ (p.isUtf8Complete (utf8 p g n).2 (g n)).1 = true from hboundary)]
    exact ⟨h.forcing, h.done, h.waiting, holds_succ hw h.holds⟩

end Tokens

/-! ## A whole phase -/

section Phase

variable {s : ℕ}

/-- While thinking is open it is counted. -/
theorem counting_of_unclosed (h : Counting p g s s (p.accepted prompt g s)) :
    ∀ n, s ≤ n → n < s + p.budget → (∀ c, s ≤ c → c < n → ¬ Closes p g s c) →
      Counting p g s n (p.accepted prompt g n) := by
  intro n hs
  induction n, hs using Nat.le_induction with
  | base => exact fun _ _ => h
  | succ n hs ih =>
    intro hn hunclosed
    have hcounting := ih (by omega) fun c hc hlt => hunclosed c hc (by omega)
    exact (hcounting.next hs hn).2 (hunclosed n hs (by omega))

/-- A tag that is closed after the wait began is closed after thinking began. -/
theorem Closes.mono {w c : ℕ} (hs : s ≤ w) (hw : w ≤ c) (h : Closes p g w c) : Closes p g s c := by
  unfold Closes at h ⊢
  rw [slice_append hs (hw.trans (Nat.le_succ c))]
  exact h.trans (List.suffix_append _ _)

/-- A close tag that began after a position was closed after it. -/
theorem Closes.of_length {w c : ℕ} (hs : s ≤ w) (hw : w ≤ c) (h : Closes p g s c)
    (hlength : w + p.thinkEndIds.length ≤ c + 1) : Closes p g w c := by
  unfold Closes at h ⊢
  rw [slice_append hs (hw.trans (Nat.le_succ c))] at h
  exact List.suffix_of_suffix_length_le h (List.suffix_append _ _) (by rw [length_slice]; omega)

/-- From the end of the budget on, the end of a character is waited for. -/
theorem waiting_of_unclosed (h : Counting p g s s (p.accepted prompt g s)) (hbudget : 1 ≤ p.budget) {w : ℕ}
    (hspent : s + p.budget = w + 1) :
    ∀ n, w ≤ n → (∀ c, s ≤ c → c < n → ¬ Closes p g s c) → (∀ j, w ≤ j → j ≤ n → ¬ Boundary p g j) →
      p.effect prompt g n = .keep ∧ Waiting p g w n (p.prepare (p.accepted prompt g n)).2 := by
  intro n hw
  induction n, hw using Nat.le_induction with
  | base =>
    intro hunclosed hboundary
    have hcounting := counting_of_unclosed h w (by omega) (by omega) hunclosed
    refine hcounting.prepare_wait (by omega) (by omega) ?_
    rw [(@utf8_accepted p g prompt w).1]
    exact hboundary w le_rfl le_rfl
  | succ n hw ih =>
    intro hunclosed hboundary
    have hwaiting := (ih (fun c hc hlt => hunclosed c hc (by omega)) fun j hj hle =>
      hboundary j hj (by omega)).2
    have hopen : ¬ Closes p g w n := fun hcloses =>
      hunclosed n (by omega) (by omega) (hcloses.mono (by omega) hw)
    have hnext := (hwaiting.next hw).2.2 hopen (hboundary (n + 1) (by omega) le_rfl)
    rw [p.effect_eq, hnext.prepare]
    exact ⟨rfl, hnext⟩

/-- Where forcing is due, it begins. -/
theorem forcing_of_forcePoint (h : Counting p g s s (p.accepted prompt g s)) (hbudget : 1 ≤ p.budget) {f : ℕ}
    (hforce : ForcePoint p g s f) :
    p.effect prompt g f = p.forceNextToken (p.prepare (p.accepted prompt g f)).2 ∧
      Forcing 0 (p.prepare (p.accepted prompt g f)).2 := by
  obtain ⟨w, hw⟩ : ∃ w, s + p.budget = w + 1 := ⟨s + p.budget - 1, by omega⟩
  have hspent := hforce.spent
  rcases Nat.lt_or_ge w f with hlt | hge
  · obtain ⟨n, rfl⟩ : ∃ n, f = n + 1 := ⟨f - 1, by omega⟩
    have hwaiting := (waiting_of_unclosed h hbudget hw n (by omega)
      (fun c hc hcn => hforce.unclosed c hc (by omega))
      fun j hj hjn => hforce.first j (by omega) (by omega)).2
    have hopen : ¬ Closes p g w n := fun hcloses =>
      hforce.unclosed n (by omega) (by omega) (hcloses.mono (by omega) (by omega))
    have hforcing := (hwaiting.next (by omega)).2.1 hopen hforce.boundary
    rw [p.effect_eq, hforcing.prepare]
    exact ⟨rfl, hforcing⟩
  · obtain rfl : f = w := by omega
    have hcounting := counting_of_unclosed h f (by omega) (by omega) hforce.unclosed
    refine hcounting.prepare_force (by omega) (by omega) ?_
    rw [(@utf8_accepted p g prompt f).1]
    exact hforce.boundary

/-- What is forced, one token after the other. -/
theorem forcing_run (h : Counting p g s s (p.accepted prompt g s)) (hbudget : 1 ≤ p.budget) {f : ℕ}
    (hforce : ForcePoint p g s f) :
    ∀ k, k < p.forceSequence.length →
      p.effect prompt g (f + k) = p.forceNextToken (p.prepare (p.accepted prompt g (f + k))).2 ∧
        Forcing k (p.prepare (p.accepted prompt g (f + k))).2 := by
  intro k
  induction k with
  | zero => exact fun _ => forcing_of_forcePoint h hbudget hforce
  | succ k ih =>
    intro hk
    have hnext := (ih (by omega)).2.next.1 hk
    rw [← Nat.add_assoc, p.effect_eq, hnext.prepare]
    exact ⟨rfl, hnext⟩

/-- After the whole force sequence thinking has ended. -/
theorem ended_of_forced (h : Counting p g s s (p.accepted prompt g s)) (hbudget : 1 ≤ p.budget)
    (hsequence : p.forceSequence ≠ []) {f : ℕ} (hforce : ForcePoint p g s f) :
    Ended (p.accepted prompt g (f + p.forceSequence.length)) ∧
      (p.accepted prompt g (f + p.forceSequence.length)).waitingUtf8 = false := by
  have hpos := List.length_pos_iff.2 hsequence
  obtain ⟨k, hk⟩ : ∃ k, p.forceSequence.length = k + 1 := ⟨p.forceSequence.length - 1, by omega⟩
  rw [hk, ← Nat.add_assoc]
  exact (forcing_run h hbudget hforce k (by omega)).2.next.2 hk.symm

/-- After a close tag of the model thinking has ended; only a tag that ends the wait leaves it. -/
theorem ended_of_closePoint (h : Counting p g s s (p.accepted prompt g s)) (hbudget : 1 ≤ p.budget) {c : ℕ}
    (hclose : ClosePoint p g s c)
    (hacross : s + p.budget ≤ c + 1 → s + p.budget + p.thinkEndIds.length ≤ c + 2) :
    Ended (p.accepted prompt g (c + 1)) ∧
      ((p.accepted prompt g (c + 1)).waitingUtf8 = true → s + p.budget ≤ c + 1) := by
  have hafter := hclose.after
  rcases Nat.lt_or_ge (c + 1) (s + p.budget) with hlt | hge
  · have hcounting := counting_of_unclosed h c hafter (by omega) hclose.first
    obtain ⟨hended, hwaiting⟩ := (hcounting.next hafter hlt).1 hclose.closes
    exact ⟨hended, fun hw => absurd (hw.symm.trans hwaiting) nofun⟩
  · obtain ⟨w, hw⟩ : ∃ w, s + p.budget = w + 1 := ⟨s + p.budget - 1, by omega⟩
    have hwaiting := (waiting_of_unclosed h hbudget hw c (by omega) hclose.first fun j hj hjc =>
      hclose.unforced j (by omega) hjc).2
    have hlength := hacross hge
    exact ⟨(hwaiting.next (by omega)).1 (hclose.closes.of_length (by omega) (by omega) (by omega)),
      fun _ => hge⟩

end Phase

/-! ## The phases of a run, one after the other -/

/-- A wait that was ended by a close tag before a position. -/
def WaitClosed (p : Processor) (g : ℕ → ℕ) (n : ℕ) : Prop :=
  ∃ s c, Begins p g s ∧ ClosePoint p g s c ∧ s + p.budget ≤ c + 1 ∧ c < n

theorem WaitClosed.mono {m : ℕ} (hnm : n ≤ m) (h : WaitClosed p g n) : WaitClosed p g m := by
  obtain ⟨s, c, hbegins, hclose, hspent, hc⟩ := h
  exact ⟨s, c, hbegins, hclose, hspent, hc.trans_le hnm⟩

theorem startsThinking_iff {token : ℕ} :
    p.startsThinking token = true ↔ p.thinkStartId = some token ∧ token ≠ 0 := by
  unfold Processor.startsThinking
  cases p.thinkStartId with
  | none => simp
  | some start =>
    simp only [Bool.and_eq_true, decide_eq_true_eq, Option.some.injEq]
    constructor
    · rintro ⟨hne, rfl⟩
      exact ⟨rfl, hne⟩
    · rintro ⟨rfl, hne⟩
      exact ⟨hne, rfl⟩

variable {N : ℕ}

mutual

/-- Where thinking begins, the processor counts from nothing. -/
theorem counting_of_begins (hbudget : 1 ≤ p.budget) (hsequence : p.forceSequence ≠ []) (h : Regular p g N) :
    ∀ {s : ℕ}, Begins p g s → s ≤ N → Counting p g s s (p.accepted prompt g s)
  | _, .first, _ => by
    rw [p.accepted_zero]
    exact ⟨rfl, rfl, rfl, rfl, rfl, holds_self 0⟩
  | _, .again (n := n) hidle hstart, hle => by
    obtain ⟨hended, hwait⟩ := ended_of_idle hbudget hsequence h hidle (by omega)
    refine hended.again (startsThinking_iff.2 ⟨hstart, h.start_ne_zero n hidle hle hstart⟩) ?_
    cases hwaiting : (p.accepted prompt g n).waitingUtf8 with
    | false => rfl
    | true =>
      obtain ⟨s, c, hbegins, hclose, hspent, hc⟩ := hwait hwaiting
      exact absurd hstart (h.not_again s c n hbegins hclose hspent hc hle hidle)

/-- Where there is no thinking, the processor has ended it. -/
theorem ended_of_idle (hbudget : 1 ≤ p.budget) (hsequence : p.forceSequence ≠ []) (h : Regular p g N) :
    ∀ {n : ℕ}, Idle p g n → n ≤ N → Ended (p.accepted prompt g n) ∧
      ((p.accepted prompt g n).waitingUtf8 = true → WaitClosed p g n)
  | _, .closed (s := s) (c := c) hbegins hclose, hle => by
    have hafter := hclose.after
    have hcounting := counting_of_begins hbudget hsequence h hbegins (by omega)
    obtain ⟨hended, hwait⟩ := ended_of_closePoint hcounting hbudget hclose
      (h.not_across s c hbegins hclose (by omega))
    exact ⟨hended, fun hwaiting => ⟨s, c, hbegins, hclose, hwait hwaiting, Nat.lt_succ_self c⟩⟩
  | _, .forced (s := s) (f := f) hbegins hforce, hle => by
    have hspent := hforce.spent
    have hcounting := counting_of_begins hbudget hsequence h hbegins (by omega)
    obtain ⟨hended, hwaiting⟩ := ended_of_forced hcounting hbudget hsequence hforce
    exact ⟨hended, fun hw => absurd (hw.symm.trans hwaiting) nofun⟩
  | _, .stays (n := n) hidle hstart, hle => by
    obtain ⟨hended, hwait⟩ := ended_of_idle hbudget hsequence h hidle (by omega)
    have hnot : p.startsThinking (g n) = false :=
      Bool.eq_false_iff.2 fun hstarts => hstart (startsThinking_iff.1 hstarts).1
    obtain ⟨hended', hwaiting⟩ := hended.next hnot
    exact ⟨hended', fun hw => (hwait (hwaiting.symm.trans hw)).mono (Nat.le_succ n)⟩

end

/-- **The law is kept in every regular run.** -/
theorem budget_law (hbudget : 1 ≤ p.budget) (hsequence : p.forceSequence ≠ []) (h : Regular p g N) :
    KeepsLaw p g prompt N where
  thinking := by
    intro s i hbegins hs hi hunclosed hboundary
    have hcounting : Counting p g s s (p.accepted prompt g s) :=
      counting_of_begins hbudget hsequence h hbegins (hs.trans hi)
    rcases Nat.lt_or_ge (i + 1) (s + p.budget) with hlt | hge
    · rw [p.effect_eq, (counting_of_unclosed hcounting i hs (by omega) hunclosed).prepare hs hlt]
    · obtain ⟨w, hw⟩ : ∃ w, s + p.budget = w + 1 := ⟨s + p.budget - 1, by omega⟩
      exact (waiting_of_unclosed hcounting hbudget hw i (by omega) hunclosed fun j hj hji =>
        hboundary j (by omega) hji).1
  forcing := by
    intro s f k target hbegins hforce hle htarget
    have hspent := hforce.spent
    have hcounting : Counting p g s s (p.accepted prompt g s) :=
      counting_of_begins hbudget hsequence h hbegins (by omega)
    obtain ⟨hk, -⟩ := List.getElem?_eq_some_iff.1 htarget
    obtain ⟨heffect, hforcing⟩ := forcing_run hcounting hbudget hforce k hk
    rw [heffect, hforcing.forceNextToken htarget]
  idle := by
    intro n hidle hle
    rw [p.effect_eq, (ended_of_idle hbudget hsequence h hidle hle).1.prepare]

/-! ## Runs -/

/-- Token `2` is the first byte of a character of three, the others are texts. -/
def euroPieces : ℕ → Piece
  | 2 => .bytes [0xE2]
  | _ => .text

/-- A close tag of one token, and a text before it where it is forced. -/
def twiceProcessor : Processor where
  thinkEndIds := [42]
  budget := 3
  thinkStartId := some 41
  leading := [10]
  trailing := []
  tokenToPiece := some euroPieces

def twiceRun (n : ℕ) : ℕ := [42, 41, 5, 5, 2, 5, 10, 42, 5].getD n 5

/-- Thinking is closed at once and begun again.  Then the third token leaves a character open, so
forcing waits for one token more. -/
theorem budget_law_twice : KeepsLaw twiceProcessor twiceRun [7] 9 := by
  have hstart : ∀ n < 9, twiceProcessor.thinkStartId = some (twiceRun n) → n = 1 := by decide
  refine budget_law (by decide) (by decide) ⟨fun n _ hn h => ?_, fun s c _ _ _ hspent => ?_,
    fun s c n _ _ hspent hafter hn _ h => ?_⟩
  · obtain rfl := hstart n hn h
    decide
  · have hlength : twiceProcessor.thinkEndIds.length = 1 := rfl
    omega
  · obtain rfl := hstart n hn h
    have hbudget : twiceProcessor.budget = 3 := rfl
    omega

/-- The model closes thinking while the end of a character is waited for, and begins it again. -/
def againProcessor : Processor where
  thinkEndIds := [42]
  budget := 3
  thinkStartId := some 41
  leading := []
  trailing := []
  tokenToPiece := some euroPieces

def againRun (n : ℕ) : ℕ := [5, 2, 42, 41, 5, 42].getD n 5

/-- The wait falls into a close tag of two tokens. -/
def acrossProcessor : Processor where
  thinkEndIds := [2, 3]
  budget := 2
  thinkStartId := some 41
  leading := []
  trailing := []
  tokenToPiece := some euroPieces

def acrossRun (n : ℕ) : ℕ := [2, 3, 2, 3].getD n 5

/-- Thinking is begun by the token `0`. -/
def zeroProcessor : Processor where
  thinkEndIds := [42]
  budget := 2
  thinkStartId := some 0
  leading := []
  trailing := []
  tokenToPiece := none

def zeroRun (n : ℕ) : ℕ := [42, 0].getD n 5

theorem closePoint_again : ClosePoint againProcessor againRun 0 2 where
  after := by decide
  closes := by
    unfold Closes
    decide
  first := fun c' _ hc' => by
    unfold Closes
    interval_cases c' <;> decide
  unforced := fun j hspent hj => by
    have hbudget : againProcessor.budget = 3 := rfl
    obtain rfl : j = 2 := by omega
    unfold Boundary
    decide

theorem closePoint_across : ClosePoint acrossProcessor acrossRun 0 1 where
  after := by decide
  closes := by
    unfold Closes
    decide
  first := fun c' _ hc' => by
    unfold Closes
    interval_cases c'
    decide
  unforced := fun j hspent hj => by
    have hbudget : acrossProcessor.budget = 2 := rfl
    obtain rfl : j = 1 := by omega
    unfold Boundary
    decide

theorem closePoint_zero : ClosePoint zeroProcessor zeroRun 0 0 where
  after := by decide
  closes := by
    unfold Closes
    decide
  first := fun c' _ hc' => absurd hc' (Nat.not_lt_zero c')
  unforced := fun j hspent hj => by
    have hbudget : zeroProcessor.budget = 2 := rfl
    omega

theorem forcePoint_zero : ForcePoint zeroProcessor zeroRun 2 3 where
  spent := by decide
  boundary := by
    unfold Boundary
    decide
  first := fun j hspent hj => by
    have hbudget : zeroProcessor.budget = 2 := rfl
    omega
  unclosed := fun c hc hlt => by
    obtain rfl : c = 2 := by omega
    unfold Closes
    decide

/-- Whether a run takes what is forced at a position. -/
def takesForced (p : Processor) (g : ℕ → ℕ) (prompt : List ℕ) (n : ℕ) : Bool :=
  match p.effect prompt g n with
  | .force t => g n = t
  | _ => true

theorem follows_of_takesForced (h : ∀ n, n < N → takesForced p g prompt n = true) : Follows p g prompt N := by
  intro n t hn hforce
  have := h n hn
  unfold takesForced at this
  rw [hforce] at this
  exact of_decide_eq_true this

/-- Forcing that is left over from the first thinking breaks into the second; a close tag is forced
although the model has written it; thinking that begins with the token `0` is not ended. -/
theorem law_broken :
    (Follows againProcessor againRun [] 6 ∧ ¬ KeepsLaw againProcessor againRun [] 6) ∧
      (Follows acrossProcessor acrossRun [] 4 ∧ ¬ KeepsLaw acrossProcessor acrossRun [] 4) ∧
      (Follows zeroProcessor zeroRun [] 4 ∧ ¬ KeepsLaw zeroProcessor zeroRun [] 4) := by
  refine ⟨⟨follows_of_takesForced (by decide), fun h => ?_⟩, ⟨follows_of_takesForced (by decide), fun h => ?_⟩,
    follows_of_takesForced (by decide), fun h => ?_⟩
  · have hbegins : Begins againProcessor againRun 4 := .again (.closed .first closePoint_again) rfl
    have hkeep := h.thinking 4 5 hbegins (by omega) (by omega)
      (fun c hc hlt => by
        obtain rfl : c = 4 := by omega
        unfold Closes
        decide)
      (fun j hspent hj => by
        have hbudget : againProcessor.budget = 3 := rfl
        omega)
    exact absurd hkeep (by decide)
  · exact absurd (h.idle 2 (.closed .first closePoint_across) (by omega)) (by decide)
  · have hbegins : Begins zeroProcessor zeroRun 2 := .again (.closed .first closePoint_zero) rfl
    exact absurd (h.forcing 2 3 0 42 hbegins forcePoint_zero (by omega) rfl) (by decide)

end AI2Apps.Omlx
