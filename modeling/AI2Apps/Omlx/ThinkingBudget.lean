import Mathlib.Data.List.DropRight
import Mathlib.Data.List.Range

/-!
# The processor that ends thinking

`ThinkingBudgetProcessor` sees the tokens of a generation before each new one is sampled.  It counts
the tokens of thinking, and when the budget is used up and the text is not in the middle of a
character, it forces the tokens that close the thinking.

* `decodeError`: how bytes fail to be UTF-8, as the decoder of the language reports it.
* `Processor.updateState`, `Processor.call`: a token is accepted, and the next one is prepared.
* `Processor.accepted`, `Processor.effect`: the states and the effects of a run.
-/

namespace AI2Apps.Omlx

/-! ## UTF-8 -/

/-- A `UnicodeDecodeError`: the data ends too early, or it is invalid up to `exc.end`. -/
inductive DecodeError where
  | unexpectedEnd
  | invalid (stop : ℕ)
  deriving DecidableEq

/-- What a lead byte asks for: the range of the byte after it, and how many bytes follow. -/
def lead (b : ℕ) : Option (ℕ × ℕ × ℕ) :=
  if b < 0x80 then some (0x80, 0xBF, 0)
  else if 0xC2 ≤ b ∧ b ≤ 0xDF then some (0x80, 0xBF, 1)
  else if b = 0xE0 then some (0xA0, 0xBF, 2)
  else if b = 0xED then some (0x80, 0x9F, 2)
  else if 0xE1 ≤ b ∧ b ≤ 0xEF then some (0x80, 0xBF, 2)
  else if b = 0xF0 then some (0x90, 0xBF, 3)
  else if 0xF1 ≤ b ∧ b ≤ 0xF3 then some (0x80, 0xBF, 3)
  else if b = 0xF4 then some (0x80, 0x8F, 3)
  else none

/-- The first error from a place on, where some bytes of a character are still owed. -/
def decodeErrorFrom : ℕ × ℕ × ℕ → ℕ → List ℕ → Option DecodeError
  | (_, _, 0), _, [] => none
  | (_, _, _ + 1), _, [] => some .unexpectedEnd
  | (_, _, 0), place, b :: rest =>
    match lead b with
    | none => some (.invalid (place + 1))
    | some owed => decodeErrorFrom owed (place + 1) rest
  | (low, high, n + 1), place, b :: rest =>
    if low ≤ b ∧ b ≤ high then decodeErrorFrom (0x80, 0xBF, n) (place + 1) rest
    else some (.invalid place)

/-- `data.decode("utf-8")`: what it raises. -/
def decodeError (data : List ℕ) : Option DecodeError := decodeErrorFrom (0x80, 0xBF, 0) 0 data

/-- An error some bytes further on. -/
def DecodeError.shift (k : ℕ) : DecodeError → DecodeError
  | .unexpectedEnd => .unexpectedEnd
  | .invalid stop => .invalid (stop + k)

theorem decodeErrorFrom_shift (k : ℕ) (data : List ℕ) : ∀ (owed : ℕ × ℕ × ℕ) (place : ℕ),
    decodeErrorFrom owed (place + k) data = (decodeErrorFrom owed place data).map (DecodeError.shift k) := by
  induction data with
  | nil =>
    rintro ⟨low, high, _ | n⟩ place
    · rfl
    · rfl
  | cons b rest ih =>
    rintro ⟨low, high, _ | n⟩ place
    · unfold decodeErrorFrom
      cases lead b with
      | none => exact congrArg some (congrArg DecodeError.invalid (by omega))
      | some owed =>
        dsimp only
        rw [← ih, Nat.add_right_comm]
    · unfold decodeErrorFrom
      split_ifs
      · rw [← ih, Nat.add_right_comm]
      · rfl

/-- After whole characters decoding starts over. -/
theorem decodeErrorFrom_append {front : List ℕ} (data : List ℕ) : ∀ {owed : ℕ × ℕ × ℕ} {place : ℕ},
    decodeErrorFrom owed place front = none →
      decodeErrorFrom owed place (front ++ data) = decodeErrorFrom (0x80, 0xBF, 0) (place + front.length) data := by
  induction front with
  | nil =>
    rintro ⟨low, high, _ | n⟩ place h
    · cases data with
      | nil => rfl
      | cons b rest => rfl
    · cases h
  | cons b rest ih =>
    rintro ⟨low, high, _ | n⟩ place h
    · rw [List.cons_append, decodeErrorFrom]
      rw [decodeErrorFrom] at h
      cases hlead : lead b with
      | none => simp [hlead] at h
      | some owed =>
        rw [hlead] at h
        dsimp only at h ⊢
        rw [ih h, List.length_cons, Nat.add_assoc, Nat.add_comm 1]
    · rw [List.cons_append, decodeErrorFrom]
      rw [decodeErrorFrom] at h
      split_ifs at h ⊢ with hrange
      rw [ih h, List.length_cons, Nat.add_assoc, Nat.add_comm 1]

theorem decodeError_append {front : List ℕ} (h : decodeError front = none) (data : List ℕ) :
    decodeError (front ++ data) = (decodeError data).map (DecodeError.shift front.length) := by
  unfold decodeError at h ⊢
  rw [decodeErrorFrom_append data h, decodeErrorFrom_shift]

/-! ## The processor -/

/-- What `token_to_piece` comes to. -/
inductive Piece where
  | raised
  | missing
  | text
  | bytes (data : List ℕ)

structure Processor where
  thinkEndIds : List ℕ
  budget : ℕ
  thinkStartId : Option ℕ
  leading : List ℕ
  trailing : List ℕ
  tokenToPiece : Option (ℕ → Piece)

/-- `_force_sequence`. -/
def Processor.forceSequence (p : Processor) : List ℕ := p.leading ++ p.thinkEndIds ++ p.trailing

structure BudgetState where
  thinkingTokens : ℕ := 0
  inThinking : Bool := true
  forcing : Bool := false
  waitingUtf8 : Bool := false
  forceIdx : ℕ := 0
  done : Bool := false
  recentTokens : List ℕ := []
  lastTokenUtf8Complete : Bool := true
  pendingUtf8 : List ℕ := []
  acceptedUpTo : Option ℕ := none

/-- What happens to the logits: nothing, or all but one token are ruled out. -/
inductive Effect where
  | keep
  | force (token : ℕ)
  | indexError
  deriving DecidableEq

namespace Processor

variable (p : Processor)

/-- `_is_utf8_complete`: the answer and the bytes that stay pending. -/
def isUtf8Complete (pending : List ℕ) (token : ℕ) : Bool × List ℕ :=
  match p.tokenToPiece with
  | none => (true, pending)
  | some tokenToPiece =>
    match tokenToPiece token with
    | .raised => (true, pending)
    | .missing => (true, pending)
    | .text => (true, [])
    | .bytes piece =>
      let pending := pending ++ piece
      match decodeError pending with
      | none => (true, [])
      | some .unexpectedEnd => (false, pending)
      | some (.invalid stop) => if stop = pending.length then (false, pending) else (true, [])

/-- `self._think_start_id and token_id == self._think_start_id`. -/
def startsThinking (token : ℕ) : Bool :=
  match p.thinkStartId with
  | none => false
  | some start => start ≠ 0 && token = start

end Processor

/-- Thinking begins again. -/
def BudgetState.reenter (s : BudgetState) : BudgetState :=
  { s with inThinking := true, done := false, thinkingTokens := 0, recentTokens := [] }

/-- Thinking has been closed. -/
def BudgetState.close (s : BudgetState) : BudgetState := { s with inThinking := false, done := true }

/-- Forcing begins. -/
def BudgetState.beginForcing (s : BudgetState) : BudgetState :=
  { s with forcing := true, forceIdx := 0, recentTokens := [] }

namespace Processor

variable (p : Processor)

/-- The end of `_update_state`: the wait for a character to end, or thinking that begins again. -/
def settle (s : BudgetState) (token : ℕ) : BudgetState :=
  if s.waitingUtf8 then
    if s.lastTokenUtf8Complete then { s with waitingUtf8 := false }.beginForcing else s
  else if !s.inThinking && p.startsThinking token then s.reenter
  else s

/-- The window of `_recent_tokens` with one more token. -/
def window (recent : List ℕ) (token : ℕ) : List ℕ :=
  let recent := recent ++ [token]
  if p.thinkEndIds.length < recent.length then recent.tail else recent

/-- `_update_state`. -/
def updateState (s : BudgetState) (token : ℕ) : BudgetState :=
  let (complete, pending) := p.isUtf8Complete s.pendingUtf8 token
  let s := { s with lastTokenUtf8Complete := complete, pendingUtf8 := pending }
  if s.done then
    if p.startsThinking token then s.reenter else s
  else if s.forcing then
    let s := { s with forceIdx := s.forceIdx + 1 }
    if p.forceSequence.length ≤ s.forceIdx then { s with forcing := false }.close else s
  else if p.thinkEndIds.length = 1 then
    if p.thinkEndIds = [token] then s.close else p.settle s token
  else
    let s := { s with recentTokens := p.window s.recentTokens token }
    if s.recentTokens = p.thinkEndIds then s.close else p.settle s token

/-- `_force_next_token`. -/
def forceNextToken (s : BudgetState) : Effect :=
  match p.forceSequence[s.forceIdx]? with
  | some target => .force target
  | none => .indexError

/-- The tokens that were not accepted before are accepted; those of the first call are the prompt. -/
def accept (s : BudgetState) (tokens : List ℕ) : BudgetState :=
  match s.acceptedUpTo with
  | none => { s with acceptedUpTo := some tokens.length }
  | some n =>
    if n < tokens.length then
      { (tokens.drop n).foldl p.updateState s with acceptedUpTo := some tokens.length }
    else s

/-- The end of `__call__`: what happens to the logits. -/
def prepare (s : BudgetState) : Effect × BudgetState :=
  if s.done then (.keep, s)
  else if s.forcing then (p.forceNextToken s, s)
  else if s.waitingUtf8 then (.keep, s)
  else if s.inThinking then
    let s := { s with thinkingTokens := s.thinkingTokens + 1 }
    if p.budget ≤ s.thinkingTokens then
      if s.lastTokenUtf8Complete then
        let s := s.beginForcing
        (p.forceNextToken s, s)
      else (.keep, { s with waitingUtf8 := true, recentTokens := [] })
    else (.keep, s)
  else (.keep, s)

/-- `__call__`. -/
def call (s : BudgetState) (tokens : List ℕ) : Effect × BudgetState := p.prepare (p.accept s tokens)

/-! ## Runs -/

/-- The state before a call of a run: the prompt is there from the start, and every call is followed
by one token. -/
def before (prompt : List ℕ) (g : ℕ → ℕ) : ℕ → BudgetState
  | 0 => {}
  | n + 1 => (p.call (before prompt g n) (prompt ++ (List.range n).map g)).2

/-- What a call of a run does. -/
def effect (prompt : List ℕ) (g : ℕ → ℕ) (n : ℕ) : Effect :=
  (p.call (p.before prompt g n) (prompt ++ (List.range n).map g)).1

/-- The state of a call of a run, when the tokens so far are accepted. -/
def accepted (prompt : List ℕ) (g : ℕ → ℕ) (n : ℕ) : BudgetState :=
  p.accept (p.before prompt g n) (prompt ++ (List.range n).map g)

theorem effect_eq (prompt : List ℕ) (g : ℕ → ℕ) (n : ℕ) :
    p.effect prompt g n = (p.prepare (p.accepted prompt g n)).1 := rfl

/-! ## One token for each call -/

theorem acceptedUpTo_prepare (s : BudgetState) : (p.prepare s).2.acceptedUpTo = s.acceptedUpTo := by
  unfold prepare BudgetState.beginForcing
  dsimp only
  split_ifs <;> rfl

theorem accepted_zero (prompt : List ℕ) (g : ℕ → ℕ) :
    p.accepted prompt g 0 = { acceptedUpTo := some prompt.length } := by
  unfold accepted accept before
  simp

/-- Every call accepts the tokens there are. -/
theorem acceptedUpTo_accepted (prompt : List ℕ) (g : ℕ → ℕ) (n : ℕ) :
    (p.accepted prompt g n).acceptedUpTo = some (prompt.length + n) := by
  cases n with
  | zero =>
    rw [accepted_zero]
    rfl
  | succ n =>
    have hbefore : (p.before prompt g (n + 1)).acceptedUpTo = some (prompt.length + n) := by
      rw [← acceptedUpTo_accepted prompt g n]
      exact p.acceptedUpTo_prepare _
    unfold accepted accept
    rw [hbefore]
    simp

/-- Every call accepts the token that was sampled after the call before it. -/
theorem accepted_succ (prompt : List ℕ) (g : ℕ → ℕ) (n : ℕ) :
    p.accepted prompt g (n + 1) =
      { p.updateState (p.prepare (p.accepted prompt g n)).2 (g n) with
        acceptedUpTo := some (prompt.length + (n + 1)) } := by
  have hbefore : (p.before prompt g (n + 1)).acceptedUpTo = some (prompt.length + n) := by
    rw [← p.acceptedUpTo_accepted prompt g n]
    exact p.acceptedUpTo_prepare _
  have hdrop : (prompt ++ (List.range (n + 1)).map g).drop (prompt.length + n) = [g n] := by
    rw [List.drop_append, List.drop_eq_nil_of_le (by omega), List.range_succ]
    simp
  rw [accepted, accept, hbefore]
  dsimp only
  rw [hdrop, if_pos (by simp)]
  simp only [List.foldl_cons, List.foldl_nil, List.length_append, List.length_map, List.length_range]
  rfl

end Processor

end AI2Apps.Omlx
