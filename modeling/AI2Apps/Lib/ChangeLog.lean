import Mathlib.Data.List.Basic
import Mathlib.Logic.Relation
import Mathlib.Order.Nat

/-!
# An index that replays a change log

An authority holds a value for each key and writes the keys it changes to a log.
An index of the authority replays the log in batches: a batch is read together
with the values its keys have at that moment, written to the index while the
authority goes on changing, and either completes, which moves the watermark, or
fails after it has written anything at all under its own keys.

A change that is not written to the log is harmless exactly as long as the key has
an entry the index has not come to yet, so a step of the authority has to log a
changed key or find it pending.

* `Replica`, `Step`: the authority, the log and the index.
* `Sound`: a key without a pending entry has its value in the index.
* `index_eq_authority`: at the end of the log, the index is the authority.
-/

namespace AI2Apps.ChangeLog

universe u v

/-- A batch that is read and not yet written: the log up to `upTo`, with the values
its keys had. -/
structure Flight (κ : Type u) (α : Type v) where
  upTo : ℕ
  seen : κ → α

structure Replica (κ : Type u) (α : Type v) where
  authority : κ → α
  log : List κ
  index : κ → α
  watermark : ℕ
  flight : Option (Flight κ α)

variable {κ : Type u} {α : Type v}

namespace Replica

/-- How far the log is read. -/
def reach (r : Replica κ α) : ℕ := (r.flight.map Flight.upTo).getD r.watermark

/-- The keys of a batch. -/
def batch (r : Replica κ α) (upTo : ℕ) : List κ := (r.log.take upTo).drop r.watermark

end Replica

/-- The steps of an authority and of its index; `bot` is the value of a key that is not there. -/
inductive Step (bot : α) : Replica κ α → Replica κ α → Prop where
  | write (r : Replica κ α) (authority : κ → α) (keys : List κ)
      (h : ∀ k, authority k = r.authority k ∨ k ∈ keys ∨ k ∈ r.log.drop r.reach) :
      Step bot r { r with authority := authority, log := r.log ++ keys }
  | read (r : Replica κ α) (f : Flight κ α) (hlow : r.watermark ≤ f.upTo)
      (hhigh : f.upTo ≤ r.log.length) (hseen : ∀ k ∈ r.batch f.upTo, f.seen k = r.authority k) :
      Step bot r { r with flight := some f }
  | finish (r : Replica κ α) (f : Flight κ α) (index : κ → α) (hf : r.flight = some f)
      (hbatch : ∀ k ∈ r.batch f.upTo, index k = f.seen k)
      (hother : ∀ k ∉ r.batch f.upTo, index k = r.index k) :
      Step bot r { r with index := index, watermark := f.upTo, flight := none }
  | fail (r : Replica κ α) (f : Flight κ α) (index : κ → α) (hf : r.flight = some f)
      (hother : ∀ k ∉ r.batch f.upTo, index k = r.index k) :
      Step bot r { r with index := index, flight := none }
  | reset (r : Replica κ α) (hidle : r.flight = none) :
      Step bot r { r with index := fun _ => bot, watermark := 0 }

/-- A key without a pending entry has its value in the index, and a batch has seen the
values of the keys that did not change since. -/
structure Sound (bot : α) (r : Replica κ α) : Prop where
  current : ∀ k ∉ r.log.drop r.watermark, r.index k = r.authority k
  bound : r.watermark ≤ r.log.length
  logged : ∀ k ∉ r.log, r.authority k = bot
  flight : ∀ f, r.flight = some f → r.watermark ≤ f.upTo ∧ f.upTo ≤ r.log.length ∧
    ∀ k ∈ r.batch f.upTo, k ∉ r.log.drop f.upTo → f.seen k = r.authority k

namespace Sound

variable {bot : α} {r : Replica κ α}

theorem watermark_le_reach (h : Sound bot r) : r.watermark ≤ r.reach := by
  unfold Replica.reach
  cases hf : r.flight with
  | none => exact le_rfl
  | some f => exact (h.flight f hf).1

theorem reach_le (h : Sound bot r) : r.reach ≤ r.log.length := by
  unfold Replica.reach
  cases hf : r.flight with
  | none => exact h.bound
  | some f => exact (h.flight f hf).2.1

/-- A key with no entry past a point of the log has none past a later one, nor among
what is appended. -/
theorem not_pending {log keys : List κ} {m n : ℕ} {k : κ} (hmn : m ≤ n) (hn : n ≤ log.length)
    (h : k ∉ (log ++ keys).drop m) : k ∉ keys ∧ k ∉ log.drop n ∧ k ∉ log.drop m := by
  rw [List.drop_append_of_le_length (hmn.trans hn), List.mem_append, not_or] at h
  refine ⟨h.2, fun hk => h.1 ?_, h.1⟩
  have hdrop : log.drop n = (log.drop m).drop (n - m) := by
    rw [List.drop_drop, Nat.add_sub_cancel' hmn]
  rw [hdrop] at hk
  exact List.mem_of_mem_drop hk

/-- What was pending, and is not past a later point, is in between. -/
theorem mem_batch {n : ℕ} {k : κ} (hlow : r.watermark ≤ n) (h : k ∈ r.log.drop r.watermark)
    (hn : k ∉ r.log.drop n) : k ∈ r.batch n := by
  have hsplit : r.log.drop r.watermark = r.batch n ++ r.log.drop n := by
    have htail : r.log.drop n = (r.log.drop r.watermark).drop (n - r.watermark) := by
      rw [List.drop_drop, Nat.add_sub_cancel' hlow]
    rw [Replica.batch, List.drop_take, htail, List.take_append_drop]
  rw [hsplit, List.mem_append] at h
  exact h.resolve_right hn

theorem step {r' : Replica κ α} (h : Sound bot r) (hstep : Step bot r r') : Sound bot r' := by
  cases hstep with
  | write authority keys hwrite =>
    have hkept : ∀ m, m ≤ r.reach → ∀ k, k ∉ (r.log ++ keys).drop m →
        authority k = r.authority k ∧ k ∉ r.log.drop m := by
      intro m hm k hk
      obtain ⟨hkeys, hreach, hlog⟩ := not_pending hm h.reach_le hk
      exact ⟨((hwrite k).resolve_right (not_or.mpr ⟨hkeys, hreach⟩)), hlog⟩
    refine ⟨fun k hk => ?_, ?_, fun k hk => ?_, fun f hf => ?_⟩
    · obtain ⟨hsame, hlog⟩ := hkept _ h.watermark_le_reach k hk
      exact (h.current k hlog).trans hsame.symm
    · exact h.bound.trans (by rw [List.length_append]; exact Nat.le_add_right _ _)
    · obtain ⟨hsame, hlog⟩ := hkept 0 (Nat.zero_le _) k hk
      exact hsame.trans (h.logged k hlog)
    · obtain ⟨hlow, hhigh, hseen⟩ := h.flight f hf
      have hreach : r.reach = f.upTo := by
        unfold Replica.reach
        rw [show r.flight = some f from hf]
        rfl
      refine ⟨hlow, hhigh.trans (by rw [List.length_append]; exact Nat.le_add_right _ _),
        fun k hbatch hk => ?_⟩
      obtain ⟨hsame, hlog⟩ := hkept _ hreach.ge k hk
      refine (hseen k ?_ hlog).trans hsame.symm
      unfold Replica.batch at hbatch ⊢
      rwa [List.take_append_of_le_length hhigh] at hbatch
  | read f hlow hhigh hseen =>
    refine ⟨h.current, h.bound, h.logged, fun g hg => ?_⟩
    obtain rfl := Option.some.inj hg
    exact ⟨hlow, hhigh, fun k hk _ => hseen k hk⟩
  | finish f index hf hbatch hother =>
    obtain ⟨hlow, hhigh, hseen⟩ := h.flight f hf
    refine ⟨fun k hk => ?_, hhigh, h.logged, fun f hf => absurd hf.symm (Option.some_ne_none f)⟩
    by_cases hk' : k ∈ r.batch f.upTo
    · exact (hbatch k hk').trans (hseen k hk' hk)
    · exact (hother k hk').trans (h.current k fun hlog => hk' (mem_batch hlow hlog hk))
  | fail f index hf hother =>
    refine ⟨fun k hk => ?_, h.bound, h.logged, fun f hf => absurd hf.symm (Option.some_ne_none f)⟩
    refine (hother k fun hbatch => hk ?_).trans (h.current k hk)
    unfold Replica.batch at hbatch
    rw [List.drop_take] at hbatch
    exact List.mem_of_mem_take hbatch
  | reset hidle =>
    refine ⟨fun k hk => (h.logged k hk).symm, Nat.zero_le _, h.logged, fun f hf => ?_⟩
    exact absurd (hf.symm.trans hidle) (Option.some_ne_none f)

/-- **At the end of the log, the index is the authority.** -/
theorem index_eq_authority (h : Sound bot r) (hend : r.watermark = r.log.length) :
    r.index = r.authority := by
  funext k
  refine h.current k ?_
  rw [hend, List.drop_length]
  exact List.not_mem_nil

end Sound

end AI2Apps.ChangeLog
