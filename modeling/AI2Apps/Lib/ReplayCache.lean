import Mathlib.Order.Lattice
import Mathlib.Data.List.Basic

/-!
# Replay caches that forget expired entries

A replay cache remembers which keys were consumed.  To stay small it first drops
the entries whose expiry has passed, then admits a key that is not present.
Single use therefore depends on when a key is presented again: this file proves
that a key is admitted at most once exactly when every presentation after the
first comes before the expiry the first one stored (`admitted_le_one_iff`).

Keys and times are arbitrary.
-/

namespace AI2Apps.ReplayCache

variable {K T : Type*} [DecidableEq K]

/-- A presentation of a key at a time, with the expiry to store for it. -/
structure Call (K T : Type*) where
  now : T
  key : K
  expires : T

/-- Whether a key is remembered. -/
def knows (cache : List (K × T)) (key : K) : Bool := cache.any fun entry => entry.1 = key

variable {key : K} {cache : List (K × T)} {call : Call K T} {calls : List (Call K T)}

theorem knows_iff :
    knows cache key = true ↔ ∃ entry ∈ cache, entry.1 = key := by
  simp [knows, List.any_eq_true]

/-- The presentations of one key. -/
def presentations (key : K) (calls : List (Call K T)) : List (Call K T) :=
  calls.filter fun call => call.key = key

@[simp] theorem mem_presentations :
    call ∈ presentations key calls ↔ call ∈ calls ∧ call.key = key := by
  simp [presentations]

theorem presentations_cons_of_eq (calls : List (Call K T)) (h : call.key = key) :
    presentations key (call :: calls) = call :: presentations key calls := by
  simp [presentations, h]

theorem presentations_cons_of_ne (calls : List (Call K T)) (h : call.key ≠ key) :
    presentations key (call :: calls) = presentations key calls := by
  simp [presentations, h]

/-- The key is remembered, and every entry for it expires at `expires`. -/
def HoldsUntil (key : K) (expires : T) (cache : List (K × T)) : Prop :=
  (∃ entry ∈ cache, entry.1 = key) ∧ ∀ entry ∈ cache, entry.1 = key → entry.2 = expires

variable [LinearOrder T]

/-- Drop what has expired. -/
def purge (now : T) (cache : List (K × T)) : List (K × T) :=
  cache.filter fun entry => now < entry.2

/-- Present a key: purge, then admit it when it is not remembered. -/
def consume (cache : List (K × T)) (call : Call K T) : Bool × List (K × T) :=
  if knows (purge call.now cache) call.key then (false, purge call.now cache)
  else (true, purge call.now cache ++ [(call.key, call.expires)])

/-- How often a key is admitted along a run. -/
def admitted (key : K) : List (K × T) → List (Call K T) → ℕ
  | _, [] => 0
  | cache, call :: calls =>
    (if call.key = key ∧ (consume cache call).1 = true then 1 else 0) +
      admitted key (consume cache call).2 calls

/-- Every presentation of the key after the first comes before the expiry that
the first one stored. -/
def InTime (key : K) (calls : List (Call K T)) : Prop :=
  match presentations key calls with
  | [] => True
  | first :: rest => ∀ call ∈ rest, call.now < first.expires

/-! ## One presentation -/

theorem knows_purge_iff {now : T} :
    knows (purge now cache) key = true ↔ ∃ entry ∈ cache, entry.1 = key ∧ now < entry.2 := by
  rw [knows_iff]
  simp only [purge, List.mem_filter, decide_eq_true_eq]
  constructor
  · rintro ⟨e, ⟨h1, h2⟩, h3⟩
    exact ⟨e, h1, h3, h2⟩
  · rintro ⟨e, h1, h3, h2⟩
    exact ⟨e, ⟨h1, h2⟩, h3⟩

theorem knows_consume_other (hne : call.key ≠ key) :
    knows (consume cache call).2 key = knows (purge call.now cache) key := by
  unfold consume
  split_ifs
  · rfl
  · simp [knows, List.any_append, hne]

/-- Before its expiry an entry refuses its key and survives every presentation. -/
theorem HoldsUntil.consume {expires : T} (h : HoldsUntil key expires cache) (hnow : call.now < expires) :
    HoldsUntil key expires (consume cache call).2 ∧
      (call.key = key → (consume cache call).1 = false) := by
  obtain ⟨⟨entry, hmem, hkey⟩, hall⟩ := h
  have hpurge : HoldsUntil key expires (purge call.now cache) := by
    refine ⟨⟨entry, ?_, hkey⟩, fun e he => hall e (List.mem_of_mem_filter he)⟩
    simpa [purge, hmem, hall entry hmem hkey] using hnow
  unfold ReplayCache.consume
  split_ifs with hk
  · exact ⟨hpurge, fun _ => rfl⟩
  · have hne : call.key ≠ key := by
      rintro rfl
      exact hk (knows_iff.mpr hpurge.1)
    refine ⟨⟨?_, ?_⟩, fun heq => absurd heq hne⟩
    · obtain ⟨e, he, hek⟩ := hpurge.1
      exact ⟨e, List.mem_append_left _ he, hek⟩
    · intro e he hek
      rcases List.mem_append.mp he with he | he
      · exact hpurge.2 e he hek
      · rw [List.mem_singleton] at he
        rw [he] at hek
        exact absurd hek hne

/-- A key that is not remembered is admitted, with the expiry it brings. -/
theorem consume_of_not_knows (h : knows (purge call.now cache) call.key = false) :
    (consume cache call).1 = true ∧ HoldsUntil call.key call.expires (consume cache call).2 := by
  have hnone : ∀ e ∈ purge call.now cache, e.1 ≠ call.key := by
    intro e he hek
    rw [knows_iff.mpr ⟨e, he, hek⟩] at h
    exact absurd h (by simp)
  simp only [consume, h, if_false, Bool.false_eq_true]
  refine ⟨trivial, ⟨_, List.mem_append_right _ (List.mem_singleton_self _), rfl⟩, ?_⟩
  intro e he hek
  rcases List.mem_append.mp he with he | he
  · exact absurd hek (hnone e he)
  · rw [List.mem_singleton.mp he]

/-! ## Runs -/

/-- A key that is not presented is not admitted. -/
theorem admitted_eq_zero_of_absent (h : ∀ call ∈ calls, call.key ≠ key) : admitted key cache calls = 0 := by
  induction calls generalizing cache with
  | nil => rfl
  | cons call calls ih =>
    simp [admitted, h call List.mem_cons_self, ih fun c hc => h c (List.mem_cons_of_mem _ hc)]

/-- Once every remaining time is past the expiry, an entry for the key no longer
counts: the next presentation is admitted. -/
theorem admitted_pos_of_expired (hold : ∀ entry ∈ cache, entry.1 = key → ∀ call ∈ calls, entry.2 ≤ call.now)
    (hex : ∃ call ∈ calls, call.key = key) : 0 < admitted key cache calls := by
  induction calls generalizing cache with
  | nil => simp at hex
  | cons call calls ih =>
    have hunknown : knows (purge call.now cache) key = false := by
      rw [Bool.eq_false_iff, ne_eq, knows_purge_iff]
      rintro ⟨entry, hmem, hkey, hlt⟩
      exact absurd hlt (not_lt.mpr (hold entry hmem hkey call List.mem_cons_self))
    by_cases hkey : call.key = key
    · subst hkey
      simp only [admitted, (consume_of_not_knows hunknown).1, and_self, if_true]
      omega
    · have hrest : ∃ c ∈ calls, c.key = key := by
        obtain ⟨c, hc, hck⟩ := hex
        rcases List.mem_cons.mp hc with rfl | hc
        · exact absurd hck hkey
        · exact ⟨c, hc, hck⟩
      have hnone : ∀ entry ∈ (consume cache call).2, entry.1 ≠ key := by
        intro entry hmem hek
        have hk := knows_iff.mpr ⟨entry, hmem, hek⟩
        rw [knows_consume_other hkey, hunknown] at hk
        exact absurd hk (by simp)
      have := ih (fun entry hmem hek => absurd hek (hnone entry hmem)) hrest
      simp only [admitted]
      omega

/-- Along a run in time order, a remembered key is admitted again exactly when
it is presented at or after its expiry. -/
theorem admitted_eq_zero_iff {expires : T} (hsorted : calls.Pairwise fun a b => a.now ≤ b.now)
    (h : HoldsUntil key expires cache) :
    admitted key cache calls = 0 ↔ ∀ call ∈ presentations key calls, call.now < expires := by
  induction calls generalizing cache with
  | nil => simp [admitted, presentations]
  | cons call calls ih =>
    obtain ⟨hle, hsorted'⟩ := List.pairwise_cons.mp hsorted
    by_cases hnow : call.now < expires
    · obtain ⟨hnext, hrefused⟩ := h.consume hnow
      have ih' := ih hsorted' hnext
      by_cases hkey : call.key = key
      · rw [presentations_cons_of_eq _ hkey, List.forall_mem_cons, ← ih']
        simp [admitted, hrefused hkey, hnow]
      · rw [presentations_cons_of_ne _ hkey, ← ih']
        simp [admitted, hkey]
    · -- from here on the entry is dead: any presentation would be admitted
      have hlate : ∀ c ∈ call :: calls, expires ≤ c.now := by
        intro c hc
        rcases List.mem_cons.mp hc with rfl | hc
        · exact not_lt.mp hnow
        · exact le_trans (not_lt.mp hnow) (hle c hc)
      have hold : ∀ entry ∈ cache, entry.1 = key → ∀ c ∈ call :: calls, entry.2 ≤ c.now := by
        intro entry hmem hkey c hc
        rw [h.2 entry hmem hkey]
        exact hlate c hc
      constructor
      · intro hzero c hc
        have := admitted_pos_of_expired hold ⟨c, mem_presentations.mp hc⟩
        omega
      · intro hall
        refine admitted_eq_zero_of_absent fun c hc hkey => ?_
        exact absurd (hall c (mem_presentations.mpr ⟨hc, hkey⟩)) (not_lt.mpr (hlate c hc))

/-- **Single use.**  Along a run in time order that starts without the key, the
key is admitted at most once exactly when it is presented in time. -/
theorem admitted_le_one_iff (hsorted : calls.Pairwise fun a b => a.now ≤ b.now)
    (hnew : ∀ entry ∈ cache, entry.1 ≠ key) :
    admitted key cache calls ≤ 1 ↔ InTime key calls := by
  induction calls generalizing cache with
  | nil => simp [admitted, InTime, presentations]
  | cons call calls ih =>
    obtain ⟨-, hsorted'⟩ := List.pairwise_cons.mp hsorted
    have hunknown : knows (purge call.now cache) key = false := by
      rw [Bool.eq_false_iff, ne_eq, knows_purge_iff]
      rintro ⟨entry, hmem, hkey, -⟩
      exact hnew entry hmem hkey
    by_cases hkey : call.key = key
    · subst hkey
      obtain ⟨hnewly, hholds⟩ := consume_of_not_knows hunknown
      have hzero := admitted_eq_zero_iff hsorted' hholds
      rw [InTime, presentations_cons_of_eq _ rfl]
      simp only [admitted, hnewly, and_self, if_true]
      rw [← hzero]
      omega
    · have hnew' : ∀ entry ∈ (consume cache call).2, entry.1 ≠ key := by
        intro entry hmem hek
        have hk := knows_iff.mpr ⟨entry, hmem, hek⟩
        rw [knows_consume_other hkey, hunknown] at hk
        exact absurd hk (by simp)
      have ih' := ih hsorted' hnew'
      have hskip : InTime key (call :: calls) ↔ InTime key calls := by
        rw [InTime, InTime, presentations_cons_of_ne _ hkey]
      rw [hskip, ← ih']
      simp [admitted, hkey]

end AI2Apps.ReplayCache
