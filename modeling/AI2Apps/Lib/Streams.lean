import Mathlib.Data.List.Basic

/-!
# Frames on a stream that ends

A reader takes one frame from the bytes that will still arrive and leaves the others.  A
frame is well delimited when it is read whatever follows it and when no part of it is taken
for a frame; a conversation of such frames is then read frame by frame, and what is cut
off at any place is missed.

* `readexactly`: the reader of a known number of bytes.
* `Reads`: a well delimited frame; `reads_readexactly`, `Reads.bind`.
* `slices`: a payload in pieces of at most a given length.
* `collect`: the loop that reads frames until one of them ends it.
* `Carries`, `collect_whole`, `collect_cut`: what the loop makes of a conversation and of
  the part of it before a cut.
-/

namespace AI2Apps.Streams

variable {β ε α γ : Type}

/-! ## Readers -/

/-- What is read, and the bytes after it. -/
abbrev Read (β ε α : Type) := List β → Except ε (α × List β)

/-- `readexactly(n)`: the next `n` bytes, or `e` where the stream ends before them. -/
def readexactly (e : ε) (n : ℕ) : Read β ε (List β) := fun input =>
  if input.length < n then .error e else .ok (input.take n, input.drop n)

/-- One reader after another. -/
def Read.bind (m : Read β ε α) (k : α → Read β ε γ) : Read β ε γ := fun input =>
  (m input).bind fun r => k r.1 r.2

/-- `m` takes `a` from `bytes` whatever follows them, and a stream that ends among them
raises `e`. -/
structure Reads (e : ε) (m : Read β ε α) (bytes : List β) (a : α) : Prop where
  whole : ∀ rest, m (bytes ++ rest) = .ok (a, rest)
  cut : ∀ l rest, l ++ rest = bytes → rest ≠ [] → m l = .error e

theorem reads_readexactly (e : ε) (bytes : List β) :
    Reads e (readexactly e bytes.length) bytes bytes where
  whole rest := by
    rw [readexactly, if_neg (by rw [List.length_append]; omega), List.take_left, List.drop_left]
  cut _ _ h hrest := by
    have hlen := congrArg List.length h
    rw [List.length_append] at hlen
    have := List.length_pos_iff.mpr hrest
    exact if_pos (by omega)

theorem Reads.pure (e : ε) (a : α) : Reads e (fun input => .ok (a, input)) ([] : List β) a where
  whole _ := rfl
  cut _ _ h hrest := absurd (List.append_eq_nil_iff.mp h).2 hrest

/-- A cut in two frames is a cut in the first, or in the second after the first. -/
theorem cut_append {a b l rest : List β} (h : l ++ rest = a ++ b) :
    (∃ more, more ≠ [] ∧ l ++ more = a) ∨ ∃ l', l = a ++ l' ∧ l' ++ rest = b := by
  rcases List.append_eq_append_iff.mp h with ⟨more, hmore, hrest'⟩ | ⟨l', hl, hb⟩
  · cases more with
    | nil => exact .inr ⟨[], by rw [hmore, List.append_nil, List.append_nil], hrest'⟩
    | cons x more => exact .inl ⟨x :: more, List.cons_ne_nil _ _, hmore.symm⟩
  · exact .inr ⟨l', hl, hb.symm⟩

/-- What is read of the beginning of a stream: the frame and what follows it, or an error. -/
theorem Reads.of_beginning {e : ε} {m : Read β ε α} {bytes more l : List β} {a : α}
    (h : Reads e m bytes a) (hl : l <+: bytes ++ more) :
    m l = .error e ∨ ∃ l', l = bytes ++ l' ∧ l' <+: more ∧ m l = .ok (a, l') := by
  obtain ⟨rest, hrest⟩ := hl
  rcases cut_append hrest with ⟨left, hleft, hcut⟩ | ⟨l', rfl, hmore⟩
  · exact .inl (h.cut l left hcut hleft)
  · exact .inr ⟨l', rfl, ⟨rest, hmore⟩, h.whole l'⟩

theorem Reads.bind {e : ε} {m : Read β ε α} {k : α → Read β ε γ} {bytes more : List β} {a : α}
    {c : γ} (hm : Reads e m bytes a) (hk : Reads e (k a) more c) :
    Reads e (m.bind k) (bytes ++ more) c where
  whole rest := by
    rw [Read.bind, List.append_assoc, hm.whole]
    exact hk.whole rest
  cut l rest h hrest := by
    rcases cut_append h with ⟨left, hleft, hl⟩ | ⟨l', rfl, hl'⟩
    · rw [Read.bind, hm.cut l left hl hleft]
      rfl
    · rw [Read.bind, hm.whole]
      exact hk.cut l' rest hl' hrest

/-! ## Slices -/

/-- `value[offset:offset + step] for offset in range(0, len(value), step)`. -/
def slices (step : ℕ) (value : List β) : List (List β) :=
  if _h : value = [] ∨ step = 0 then []
  else value.take step :: slices step (value.drop step)
termination_by value.length
decreasing_by
  rw [not_or] at _h
  have := List.length_pos_iff.mpr _h.1
  rw [List.length_drop]
  omega

theorem slices_nil (step : ℕ) : slices step ([] : List β) = [] := by
  rw [slices, dif_pos (Or.inl rfl)]

theorem slices_of_ne_nil {step : ℕ} {value : List β} (hstep : 0 < step) (h : value ≠ []) :
    slices step value = value.take step :: slices step (value.drop step) := by
  rw [slices, dif_neg (by rw [not_or]; exact ⟨h, by omega⟩)]

/-- Values by how they are sliced. -/
theorem slices_induction {P : List β → Prop} {step : ℕ} (hstep : 0 < step) (nil : P [])
    (slice : ∀ value, value ≠ [] → P (value.drop step) → P value) (value : List β) : P value := by
  induction hn : value.length using Nat.strongRecOn generalizing value with
  | _ n ih =>
    by_cases h : value = []
    · exact h ▸ nil
    · have := List.length_pos_iff.mpr h
      exact slice value h (ih (value.drop step).length (by rw [List.length_drop]; omega) _ rfl)

/-- **The slices are the value.** -/
theorem flatten_slices {step : ℕ} (hstep : 0 < step) (value : List β) :
    (slices step value).flatten = value := by
  induction value using slices_induction hstep with
  | nil => rw [slices_nil, List.flatten_nil]
  | slice value h ih => rw [slices_of_ne_nil hstep h, List.flatten_cons, ih, List.take_append_drop]

/-- No slice is longer than the step. -/
theorem length_le_of_mem_slices {step : ℕ} (hstep : 0 < step) {value slice : List β}
    (h : slice ∈ slices step value) : slice.length ≤ step := by
  induction value using slices_induction hstep with
  | nil =>
    rw [slices_nil] at h
    exact absurd h List.not_mem_nil
  | slice value hne ih =>
    rw [slices_of_ne_nil hstep hne] at h
    rcases List.mem_cons.mp h with rfl | hmem
    · exact (List.length_take_le step value)
    · exact ih hmem

/-! ## The loop -/

/-- A reader of frames: what it takes is not nothing. -/
structure FrameReader (β ε α : Type) where
  read : Read β ε α
  shorter : ∀ {input rest : List β} {a : α}, read input = .ok (a, rest) → rest.length < input.length

/-- A reader whose errors are raised under another name. -/
def Read.mapError {δ : Type} (m : Read β ε α) (f : ε → δ) : Read β δ α := fun input =>
  (m input).mapError f

theorem Reads.mapError {δ : Type} {e : ε} {m : Read β ε α} {bytes : List β} {a : α}
    (h : Reads e m bytes a) (f : ε → δ) : Reads (f e) (m.mapError f) bytes a where
  whole rest := by rw [Read.mapError, h.whole]; rfl
  cut l rest hl hrest := by rw [Read.mapError, h.cut l rest hl hrest]; rfl

def FrameReader.mapError {δ : Type} (R : FrameReader β ε α) (f : ε → δ) : FrameReader β δ α where
  read := R.read.mapError f
  shorter := by
    intro input rest a h
    unfold Read.mapError at h
    cases hread : R.read input with
    | error e =>
      rw [hread] at h
      cases h
    | ok r =>
      rw [hread] at h
      cases h
      exact R.shorter hread

variable {σ ι : Type}

/-- The loop that reads frames: `step` raises, ends the loop, or yields an item. -/
def collect (R : FrameReader β ε α) (step : σ → α → Except ε (Option (ι × σ))) (s : σ)
    (input : List β) : List ι × Except ε (List β) :=
  match _h : R.read input with
  | .error e => ([], .error e)
  | .ok (a, rest) =>
    match step s a with
    | .error e => ([], .error e)
    | .ok none => ([], .ok rest)
    | .ok (some (i, s')) =>
      let r := collect R step s' rest
      (i :: r.1, r.2)
termination_by input.length
decreasing_by exact R.shorter _h

section Collect

variable {R : FrameReader β ε α} {step : σ → α → Except ε (Option (ι × σ))} {s s' : σ}
  {input rest : List β} {a : α}

theorem collect_of_error {e : ε} (h : R.read input = .error e) :
    collect R step s input = ([], .error e) := by
  rw [collect]
  split
  · rename_i e' h'
    rw [h] at h'
    cases h'
    rfl
  · rename_i h'
    rw [h] at h'
    cases h'

theorem collect_of_ok (h : R.read input = .ok (a, rest)) :
    collect R step s input =
      match step s a with
      | .error e => ([], .error e)
      | .ok none => ([], .ok rest)
      | .ok (some (i, s')) => (i :: (collect R step s' rest).1, (collect R step s' rest).2) := by
  rw [collect]
  split
  · rename_i h'
    rw [h] at h'
    cases h'
  · rename_i h'
    rw [h] at h'
    cases h'
    rfl

end Collect

/-- `bytes` carries `items` from `s` on and then ends the loop: as it should, or by what a
frame makes the step raise. -/
inductive Carries (e : ε) (R : FrameReader β ε α) (step : σ → α → Except ε (Option (ι × σ))) :
    σ → List ι → List β → Except ε Unit → Prop where
  | stop {s : σ} {bytes : List β} {a : α} (hread : Reads e R.read bytes a)
      (hstep : step s a = .ok none) : Carries e R step s [] bytes (.ok ())
  | refuse {s : σ} {bytes : List β} {a : α} {e' : ε} (hread : Reads e R.read bytes a)
      (hstep : step s a = .error e') : Carries e R step s [] bytes (.error e')
  | item {s s' : σ} {bytes more : List β} {a : α} {i : ι} {items : List ι} {out : Except ε Unit}
      (hread : Reads e R.read bytes a) (hstep : step s a = .ok (some (i, s')))
      (hmore : Carries e R step s' items more out) :
      Carries e R step s (i :: items) (bytes ++ more) out

section Carries

variable {e : ε} {R : FrameReader β ε α} {step : σ → α → Except ε (Option (ι × σ))} {s : σ}
  {items : List ι} {bytes : List β} {out : Except ε Unit}

/-- **A whole conversation is read.** -/
theorem collect_whole (h : Carries e R step s items bytes out) (rest : List β) :
    collect R step s (bytes ++ rest) = (items, out.map fun _ => rest) := by
  induction h with
  | stop hread hstep => rw [collect_of_ok (hread.whole rest), hstep]; rfl
  | refuse hread hstep => rw [collect_of_ok (hread.whole rest), hstep]; rfl
  | item hread hstep hmore ih =>
    rw [List.append_assoc, collect_of_ok (hread.whole _), hstep]
    dsimp only
    rw [ih]

/-- **What is cut off is missed**: the items before the cut, and the error of a stream
that ends early. -/
theorem collect_cut (h : Carries e R step s items bytes out) {l rest : List β}
    (hl : l ++ rest = bytes) (hrest : rest ≠ []) :
    ∃ k, collect R step s l = (items.take k, .error e) := by
  induction h generalizing l with
  | stop hread hstep => exact ⟨0, collect_of_error (hread.cut l rest hl hrest)⟩
  | refuse hread hstep => exact ⟨0, collect_of_error (hread.cut l rest hl hrest)⟩
  | item hread hstep hmore ih =>
    rcases cut_append hl with ⟨left, hleft, hl'⟩ | ⟨l', rfl, hl'⟩
    · exact ⟨0, collect_of_error (hread.cut l left hl' hleft)⟩
    · obtain ⟨k, hk⟩ := ih hl'
      refine ⟨k + 1, ?_⟩
      rw [collect_of_ok (hread.whole l'), hstep]
      dsimp only
      rw [hk, List.take_succ_cons]

end Carries

end AI2Apps.Streams
