import Mathlib.Data.List.Nodup
import Mathlib.Tactic.SplitIfs

/-!
# Programs with injected faults

Code that awaits can fail at every await, and its state survives the exception.
Such a program is an `EStateM`: a state transformer that returns or raises and
keeps the state either way.  A `fault` is a point of the program at which the
environment may raise.

`wp` says what holds after a program, on return and on exception.  It is computed
along the program by the rules below, one for each construct, so a property of
every placement of faults becomes a case analysis over the points in program
order; `wp_forM` is the rule for a loop with an invariant.  `Preserves` is the
invariant that holds on return and on exception alike, and composes.
-/

namespace AI2Apps.Faults

variable {ε σ α β : Type}

/-- A point at which the environment may raise. -/
def fault : Option ε → EStateM ε σ Unit
  | none => pure ()
  | some e => throw e

/-- A value, or the exception of not having one. -/
def orThrow (e : ε) : Option α → EStateM ε σ α
  | some a => pure a
  | none => throw e

/-- `if condition: x`. -/
def only (condition : Prop) [Decidable condition] (x : EStateM ε σ Unit) : EStateM ε σ Unit :=
  if condition then x else pure ()

/-- A database transaction: an exception rolls it back. -/
def transaction (x : EStateM ε σ α) : EStateM ε σ α := fun s =>
  match x s with
  | .ok a s' => .ok a s'
  | .error e _ => .error e s

/-- `Q` holds when the program returns and `E` when it raises. -/
def wp (x : EStateM ε σ α) (Q : α → σ → Prop) (E : ε → σ → Prop) (s : σ) : Prop :=
  match x.run s with
  | .ok a s' => Q a s'
  | .error e s' => E e s'

section Rules

variable {Q : α → σ → Prop} {E : ε → σ → Prop} {s : σ}

@[simp] theorem wp_pure (a : α) : wp (pure a) Q E s ↔ Q a s := Iff.rfl

@[simp] theorem wp_throw (e : ε) : wp (throw e : EStateM ε σ α) Q E s ↔ E e s := Iff.rfl

@[simp] theorem wp_bind (x : EStateM ε σ β) (f : β → EStateM ε σ α) :
    wp (x >>= f) Q E s ↔ wp x (fun b => wp (f b) Q E) E s := by
  unfold wp
  show (match (EStateM.bind x f) s with | .ok a s' => Q a s' | .error e s' => E e s') ↔ _
  unfold EStateM.bind EStateM.run
  cases x s <;> rfl

@[simp] theorem wp_map (x : EStateM ε σ β) (f : β → α) :
    wp (f <$> x) Q E s ↔ wp x (fun b => Q (f b)) E s := by
  unfold wp
  show (match (EStateM.map f x) s with | .ok a s' => Q a s' | .error e s' => E e s') ↔ _
  unfold EStateM.map EStateM.run
  cases x s <;> rfl

@[simp] theorem wp_modify {Q : Unit → σ → Prop} (f : σ → σ) :
    wp (modify f : EStateM ε σ Unit) Q E s ↔ Q () (f s) := Iff.rfl

@[simp] theorem wp_get {Q : σ → σ → Prop} : wp (get : EStateM ε σ σ) Q E s ↔ Q s s := Iff.rfl

@[simp] theorem wp_set {Q : PUnit → σ → Prop} (t : σ) :
    wp (set t : EStateM ε σ PUnit) Q E s ↔ Q ⟨⟩ t := Iff.rfl

@[simp] theorem wp_fault_none {Q : Unit → σ → Prop} :
    wp (fault none : EStateM ε σ Unit) Q E s ↔ Q () s := Iff.rfl

@[simp] theorem wp_fault_some {Q : Unit → σ → Prop} (e : ε) :
    wp (fault (some e) : EStateM ε σ Unit) Q E s ↔ E e s := Iff.rfl

@[simp] theorem wp_orThrow_some (e : ε) (a : α) :
    wp (orThrow e (some a) : EStateM ε σ α) Q E s ↔ Q a s := Iff.rfl

@[simp] theorem wp_orThrow_none (e : ε) :
    wp (orThrow e none : EStateM ε σ α) Q E s ↔ E e s := Iff.rfl

theorem wp_orThrow (e : ε) (o : Option α) :
    wp (orThrow e o : EStateM ε σ α) Q E s ↔ (∀ a, o = some a → Q a s) ∧ (o = none → E e s) := by
  cases o <;> simp

theorem wp_only_pos {Q : Unit → σ → Prop} {c : Prop} [Decidable c] (h : c)
    (x : EStateM ε σ Unit) : wp (only c x) Q E s ↔ wp x Q E s := by
  rw [only, if_pos h]

theorem wp_only_neg {Q : Unit → σ → Prop} {c : Prop} [Decidable c] (h : ¬ c)
    (x : EStateM ε σ Unit) : wp (only c x) Q E s ↔ Q () s := by
  rw [only, if_neg h, wp_pure]

/-- `try: x except: h`: the handler starts in the state the exception left. -/
@[simp] theorem wp_tryCatch (x : EStateM ε σ α) (h : ε → EStateM ε σ α) :
    wp (tryCatch x h) Q E s ↔ wp x Q (fun e => wp (h e) Q E) s := by
  unfold wp
  show (match (EStateM.tryCatch x h) s with | .ok a s' => Q a s' | .error e s' => E e s') ↔ _
  unfold EStateM.tryCatch EStateM.run
  cases x s <;> rfl

@[simp] theorem wp_transaction (x : EStateM ε σ α) :
    wp (transaction x) Q E s ↔ wp x Q (fun e _ => E e s) s := by
  unfold wp
  show (match transaction x s with | .ok a s' => Q a s' | .error e s' => E e s') ↔ _
  unfold transaction EStateM.run
  cases x s <;> rfl

/-- What a known run says. -/
theorem wp_of_ok {x : EStateM ε σ α} {a : α} {s' : σ} (h : x.run s = .ok a s') :
    wp x Q E s ↔ Q a s' := by
  unfold wp
  rw [h]

theorem wp_of_error {x : EStateM ε σ α} {e : ε} {s' : σ} (h : x.run s = .error e s') :
    wp x Q E s ↔ E e s' := by
  unfold wp
  rw [h]

instance [∀ a t, Decidable (Q a t)] [∀ e t, Decidable (E e t)] (x : EStateM ε σ α) :
    Decidable (wp x Q E s) :=
  match h : x.run s with
  | .ok a s' => decidable_of_iff (Q a s') (wp_of_ok h).symm
  | .error e s' => decidable_of_iff (E e s') (wp_of_error h).symm

/-- The state a run ends in, on return or on exception. -/
def final (x : EStateM ε σ α) (s : σ) : σ :=
  match x.run s with
  | .ok _ s' => s'
  | .error _ s' => s'

theorem wp_final {P : σ → Prop} {x : EStateM ε σ α} :
    wp x (fun _ => P) (fun _ => P) s ↔ P (final x s) := by
  unfold wp final
  cases x.run s <;> rfl

/-- A program that does not raise has a result. -/
theorem returns_of_wp {x : EStateM ε σ α} (h : wp x Q (fun _ _ => False) s) :
    ∃ a s', x.run s = .ok a s' ∧ Q a s' := by
  unfold wp at h
  cases hx : x.run s with
  | ok a s' => rw [hx] at h; exact ⟨a, s', rfl, h⟩
  | error e s' => rw [hx] at h; exact h.elim

/-- A program that does not return has an exception. -/
theorem raises_of_wp {x : EStateM ε σ α} (h : wp x (fun _ _ => False) E s) :
    ∃ e s', x.run s = .error e s' ∧ E e s' := by
  unfold wp at h
  cases hx : x.run s with
  | ok a s' => rw [hx] at h; exact h.elim
  | error e s' => rw [hx] at h; exact ⟨e, s', rfl, h⟩

/-- What follows from what holds, holds. -/
theorem wp_mono {x : EStateM ε σ α} {Q' : α → σ → Prop} {E' : ε → σ → Prop}
    (h : wp x Q E s) (hQ : ∀ a s', Q a s' → Q' a s') (hE : ∀ e s', E e s' → E' e s') :
    wp x Q' E' s := by
  unfold wp at h ⊢
  cases hx : x.run s with
  | ok a s' => rw [hx] at h; exact hQ a s' h
  | error e s' => rw [hx] at h; exact hE e s' h

/-- Two things that hold after a program hold together. -/
theorem wp_and {x : EStateM ε σ α} {Q' : α → σ → Prop} {E' : ε → σ → Prop}
    (h : wp x Q E s) (h' : wp x Q' E' s) :
    wp x (fun a s => Q a s ∧ Q' a s) (fun e s => E e s ∧ E' e s) s := by
  unfold wp at h h' ⊢
  cases hx : x.run s with
  | ok a s' => rw [hx] at h h'; exact ⟨h, h'⟩
  | error e s' => rw [hx] at h h'; exact ⟨h, h'⟩

/-- What follows from every outcome, holds. -/
theorem wp_elim {P : Prop} {x : EStateM ε σ α} (h : wp x Q E s) (hQ : ∀ a s', Q a s' → P)
    (hE : ∀ e s', E e s' → P) : P := by
  unfold wp at h
  cases hx : x.run s with
  | ok a s' => rw [hx] at h; exact hQ a s' h
  | error e s' => rw [hx] at h; exact hE e s' h

/-- The loop rule: an invariant kept by every iteration holds after the loop, and
where an iteration raises, what it guarantees on exception holds. -/
theorem wp_forM {items : List β} {body : β → EStateM ε σ PUnit} {I : List β → σ → Prop}
    (hbody : ∀ done item rest s, items = done ++ item :: rest → I done s →
      wp (body item) (fun _ => I (done ++ [item])) E s)
    (hstart : I [] s) : wp (forM items body) (fun _ => I items) E s := by
  suffices hgen : ∀ (rest done : List β) (s : σ), items = done ++ rest → I done s →
      wp (forM rest body) (fun _ => I items) E s from hgen items [] s rfl hstart
  intro rest
  induction rest with
  | nil =>
    intro done s heq hI
    rw [heq, List.append_nil]
    simpa using hI
  | cons item rest ih =>
    intro done s heq hI
    rw [List.forM_cons, wp_bind]
    refine wp_mono (hbody done item rest s heq hI) (fun _ s' hs' => ?_) fun _ _ h => h
    exact ih (done ++ [item]) s' (by rw [heq, List.append_assoc]; rfl) hs'

/-- The loop rule for items that are worked on one by one: what every item needs
still holds when its turn comes, because the work on another item keeps it. -/
theorem wp_forM_each {items : List β} {body : β → EStateM ε σ PUnit} {P : β → σ → Prop}
    {J : σ → Prop} (hnodup : items.Nodup)
    (hbody : ∀ item ∈ items, ∀ s, J s → P item s → wp (body item)
      (fun _ s' => J s' ∧ ∀ other ∈ items, other ≠ item → P other s → P other s') E s)
    (hJ : J s) (hP : ∀ item ∈ items, P item s) : wp (forM items body) (fun _ => J) E s := by
  refine wp_mono (wp_forM (I := fun done s => J s ∧ ∀ item ∈ items, item ∉ done → P item s)
    (fun done item rest s heq hI => ?_) ⟨hJ, fun item hitem _ => hP item hitem⟩)
    (fun _ _ h => h.1) fun _ _ h => h
  have hitem : item ∈ items := heq ▸ by simp
  have hnew : item ∉ done := by
    rw [heq] at hnodup
    exact fun h => (List.nodup_append.mp hnodup).2.2 item h item (by simp) rfl
  refine wp_mono (hbody item hitem s hI.1 (hI.2 item hitem hnew)) (fun _ t ht => ⟨ht.1, ?_⟩)
    fun _ _ h => h
  intro other hother hnot
  rw [List.mem_append, not_or, List.mem_singleton] at hnot
  exact ht.2 other hother hnot.2 (hI.2 other hother hnot.1)

end Rules

/-! ## What a program keeps -/

/-- The program keeps `I`, whether it returns or raises. -/
def Preserves (I : σ → Prop) (x : EStateM ε σ α) : Prop :=
  ∀ s, I s → wp x (fun _ => I) (fun _ => I) s

namespace Preserves

variable {I : σ → Prop}

theorem pure (a : α) : Preserves I (pure a : EStateM ε σ α) := fun _ h => h

theorem throw (e : ε) : Preserves I (throw e : EStateM ε σ α) := fun _ h => h

theorem fault (o : Option ε) : Preserves I (fault o : EStateM ε σ Unit) := fun s h => by
  cases o <;> exact h

theorem orThrow (e : ε) (o : Option α) : Preserves I (orThrow e o : EStateM ε σ α) :=
  fun s h => by cases o <;> exact h

theorem get : Preserves I (get : EStateM ε σ σ) := fun _ h => h

theorem modify {f : σ → σ} (hf : ∀ s, I s → I (f s)) :
    Preserves I (modify f : EStateM ε σ Unit) := hf

theorem bind {x : EStateM ε σ α} {f : α → EStateM ε σ β} (hx : Preserves I x)
    (hf : ∀ a, Preserves I (f a)) : Preserves I (x >>= f) := fun s h => by
  rw [wp_bind]
  exact wp_mono (hx s h) (fun a s' h' => hf a s' h') fun _ _ h' => h'

/-- What a program keeps holds when the next one starts. -/
theorem wp_bind {x : EStateM ε σ α} {f : α → EStateM ε σ β} (hx : Preserves I x) {s : σ} (h : I s)
    {Q : β → σ → Prop} {E : ε → σ → Prop} (hf : ∀ a s', I s' → wp (f a) Q E s')
    (hE : ∀ e s', I s' → E e s') : wp (x >>= f) Q E s := by
  rw [Faults.wp_bind]
  exact wp_mono (hx s h) hf hE

theorem ite (c : Prop) [Decidable c] {x y : EStateM ε σ α} (hx : c → Preserves I x)
    (hy : ¬ c → Preserves I y) : Preserves I (if c then x else y) := by
  split_ifs with h
  · exact hx h
  · exact hy h

/-- A loop keeps what its body keeps for every item it comes to. -/
theorem forM_mem {items : List β} {body : β → EStateM ε σ PUnit}
    (h : ∀ item ∈ items, Preserves I (body item)) : Preserves I (forM items body) := by
  induction items with
  | nil => exact .pure ()
  | cons item rest ih =>
    rw [List.forM_cons]
    refine .bind (h item List.mem_cons_self) fun _ => ih fun other hother => ?_
    exact h other (List.mem_cons_of_mem _ hother)

theorem forM {items : List β} {body : β → EStateM ε σ PUnit} (h : ∀ item, Preserves I (body item)) :
    Preserves I (forM items body) := forM_mem fun item _ => h item

theorem only (c : Prop) [Decidable c] {x : EStateM ε σ Unit} (hx : Preserves I x) :
    Preserves I (only c x) := by
  unfold Faults.only
  split_ifs
  · exact hx
  · exact .pure ()

end Preserves

end AI2Apps.Faults
