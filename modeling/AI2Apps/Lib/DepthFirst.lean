import Mathlib.Data.List.Nodup

/-!
# Depth-first walks over nodes with keys

A walk selects at most one node for each key.  It follows the edges of a node in order: an edge
may be passed over, an edge to a selected key is checked against the node selected for it, and
an edge to a key not selected selects its target and walks it first.  A node is
finished when its edges are followed, so that the finished nodes are in post-order.

* `Follows`: a walk that does not fail, over the edges of one node.
* `Inv`: what holds at every moment.
* `Follows.inv`, `Walked.inv`: a walk keeps it.
* `Walked.finished_of`: which nodes are finished.
-/

namespace AI2Apps.DepthFirst

/-- Nodes, their keys, their edges in order, and where an edge of a node leads: nowhere if it
cannot be followed, and to no node if it is passed over. -/
structure System (ν κ ε : Type) where
  key : ν → κ
  edges : ν → List ε
  target : ν → ε → Option (Option ν)

/-- The nodes selected, the edges taken with where they lead, the keys being visited, and the
nodes finished. -/
structure State (ν κ ε : Type) where
  selected : κ → Option ν
  trail : List (ν × ε × ν)
  visiting : List κ
  finished : List ν

variable {ν κ ε : Type}

def State.enter (S : System ν κ ε) (s : State ν κ ε) (n : ν) : State ν κ ε :=
  { s with visiting := s.visiting ++ [S.key n] }

def State.take (s : State ν κ ε) (n : ν) (e : ε) (m : ν) : State ν κ ε :=
  { s with trail := s.trail ++ [(n, e, m)] }

/-! ## The invariant -/

/-- An edge is passed over, or taken. -/
def Taken (S : System ν κ ε) (s : State ν κ ε) (n : ν) (e : ε) : Prop :=
  S.target n e = some none ∨ ∃ m, S.target n e = some (some m) ∧ (n, e, m) ∈ s.trail

theorem Taken.mono {S : System ν κ ε} {s s' : State ν κ ε} {n : ν} {e : ε} (h : Taken S s n e)
    (htrail : ∀ t ∈ s.trail, t ∈ s'.trail) : Taken S s' n e :=
  h.imp_right fun ⟨m, hm, hmem⟩ => ⟨m, hm, htrail _ hmem⟩

/-- What holds at every moment of a walk. -/
structure Inv (S : System ν κ ε) (same : ν → ν → Prop) (s : State ν κ ε) : Prop where
  visiting_nodup : s.visiting.Nodup
  visiting_selected : ∀ k ∈ s.visiting, s.selected k ≠ none
  key_selected : ∀ k n, s.selected k = some n → S.key n = k
  selected_finished : ∀ k n, s.selected k = some n → k ∉ s.visiting → n ∈ s.finished
  finished_selected : ∀ n ∈ s.finished, s.selected (S.key n) = some n
  finished_left : ∀ n ∈ s.finished, S.key n ∉ s.visiting
  finished_nodup : (s.finished.map S.key).Nodup
  trail_source : ∀ t ∈ s.trail, s.selected (S.key t.1) = some t.1
  trail_edge : ∀ t ∈ s.trail, t.2.1 ∈ S.edges t.1 ∧ S.target t.1 t.2.1 = some (some t.2.2)
  trail_target : ∀ t ∈ s.trail, ∃ m ∈ s.finished, S.key m = S.key t.2.2 ∧ same m t.2.2
  trail_ne : ∀ t ∈ s.trail, S.key t.2.2 ≠ S.key t.1
  closed : ∀ n ∈ s.finished, ∀ e ∈ S.edges n, Taken S s n e
  postorder : s.finished.Pairwise fun a b => ∀ t ∈ s.trail, t.1 = a → S.key t.2.2 ≠ S.key b

variable {S : System ν κ ε} {same : ν → ν → Prop} {s s' : State ν κ ε} {n m : ν} {e : ε} {es : List ε}

/-- Taking an edge of a node being visited to a key that is finished. -/
theorem Inv.take (h : Inv S same s) (hn : S.key n ∈ s.visiting) (hsel : s.selected (S.key n) = some n)
    (he : e ∈ S.edges n) (ht : S.target n e = some (some m))
    (hm : ∃ m' ∈ s.finished, S.key m' = S.key m ∧ same m' m) : Inv S same (s.take n e m) := by
  have hmem : ∀ t, t ∈ (s.take n e m).trail ↔ t ∈ s.trail ∨ t = (n, e, m) := fun t => by
    rw [State.take, List.mem_append, List.mem_singleton]
  -- The node is not finished, so the edges of the finished nodes are the same.
  have hnot : ∀ a ∈ s.finished, n ≠ a := by
    rintro a ha rfl
    exact h.finished_left n ha hn
  refine
    { h with
      trail_source := fun t htr => ?_
      trail_edge := fun t htr => ?_
      trail_target := fun t htr => ?_
      trail_ne := fun t htr => ?_
      closed := fun a ha x hx => (h.closed a ha x hx).mono fun t htr => (hmem t).mpr (.inl htr)
      postorder := h.postorder.imp_of_mem fun {a b} ha _ hab t htr heq => ?_ }
  · rcases (hmem t).mp htr with htr | rfl
    · exact h.trail_source t htr
    · exact hsel
  · rcases (hmem t).mp htr with htr | rfl
    · exact h.trail_edge t htr
    · exact ⟨he, ht⟩
  · rcases (hmem t).mp htr with htr | rfl
    · exact h.trail_target t htr
    · exact hm
  · rcases (hmem t).mp htr with htr | rfl
    · exact h.trail_ne t htr
    · obtain ⟨m', hm', hkey, -⟩ := hm
      rintro hk
      exact h.finished_left m' hm' (hkey.trans hk ▸ hn)
  · rcases (hmem t).mp htr with htr | rfl
    · exact hab t htr heq
    · exact absurd heq (hnot a ha)

/-- One state grows into another. -/
structure Grows (s s' : State ν κ ε) : Prop where
  visiting : s'.visiting = s.visiting
  selected : ∀ k n, s.selected k = some n → s'.selected k = some n
  trail : ∀ t ∈ s.trail, t ∈ s'.trail
  finished : ∀ n ∈ s.finished, n ∈ s'.finished

theorem Grows.refl (s : State ν κ ε) : Grows s s := ⟨rfl, fun _ _ => id, fun _ => id, fun _ => id⟩

theorem Grows.trans {s₁ : State ν κ ε} (h : Grows s s₁) (h' : Grows s₁ s') : Grows s s' :=
  ⟨h'.visiting.trans h.visiting, fun k n hn => h'.selected k n (h.selected k n hn),
    fun t ht => h'.trail t (h.trail t ht), fun n hn => h'.finished n (h.finished n hn)⟩

theorem grows_take (s : State ν κ ε) (n : ν) (e : ε) (m : ν) : Grows s (s.take n e m) :=
  ⟨rfl, fun _ _ => id, fun _ ht => List.mem_append_left _ ht, fun _ => id⟩

/-! ## Selecting and leaving -/

section Selecting

variable [DecidableEq κ]

def State.select (S : System ν κ ε) (s : State ν κ ε) (n : ν) : State ν κ ε :=
  { s with selected := fun k => if S.key n = k then some n else s.selected k }

/-- Selecting a node and entering it. -/
theorem Inv.enter (h : Inv S same s) (hm : s.selected (S.key m) = none) :
    Inv S same ((s.select S m).enter S m) := by
  have hold : ∀ k x, s.selected k = some x → S.key m ≠ k := by
    rintro k x hx rfl
    rw [hm] at hx
    cases hx
  have hsel : ∀ k x, s.selected k = some x → (s.select S m).selected k = some x := fun k x hx => by
    show (if S.key m = k then some m else s.selected k) = some x
    rw [if_neg (hold k x hx), hx]
  have hvis : ∀ k, k ∈ ((s.select S m).enter S m).visiting ↔ k ∈ s.visiting ∨ k = S.key m := fun k => by
    show k ∈ s.visiting ++ [S.key m] ↔ _
    rw [List.mem_append, List.mem_singleton]
  have hnew : ∀ k x, (s.select S m).selected k = some x →
      S.key m = k ∧ m = x ∨ s.selected k = some x := fun k x hx => by
    change (if S.key m = k then some m else s.selected k) = some x at hx
    split_ifs at hx with hk
    · exact .inl ⟨hk, Option.some.inj hx⟩
    · exact .inr hx
  have hfresh : S.key m ∉ s.visiting := fun hk => h.visiting_selected _ hk hm
  refine
    { visiting_nodup := ?_
      visiting_selected := fun k hk => ?_
      key_selected := fun k x hx => ?_
      selected_finished := fun k x hx hk => ?_
      finished_selected := fun x hx => hsel _ x (h.finished_selected x hx)
      finished_left := fun x hx hk => ?_
      finished_nodup := h.finished_nodup
      trail_source := fun t ht => hsel _ _ (h.trail_source t ht)
      trail_edge := h.trail_edge
      trail_target := h.trail_target
      trail_ne := h.trail_ne
      closed := h.closed
      postorder := h.postorder }
  · show (s.visiting ++ [S.key m]).Nodup
    rw [List.nodup_append]
    refine ⟨h.visiting_nodup, List.nodup_singleton _, ?_⟩
    rintro a ha b hb rfl
    exact hfresh (List.mem_singleton.mp hb ▸ ha)
  · show (if S.key m = k then some m else s.selected k) ≠ none
    split_ifs with hkm
    · exact Option.some_ne_none m
    · rcases (hvis k).mp hk with hk | rfl
      · exact h.visiting_selected k hk
      · exact absurd rfl hkm
  · rcases hnew k x hx with ⟨rfl, rfl⟩ | hx
    · rfl
    · exact h.key_selected k x hx
  · rcases hnew k x hx with ⟨rfl, rfl⟩ | hx
    · exact absurd ((hvis _).mpr (.inr rfl)) hk
    · exact h.selected_finished k x hx fun hk' => hk ((hvis k).mpr (.inl hk'))
  · rcases (hvis _).mp hk with hk | hk
    · exact h.finished_left x hx hk
    · exact hold _ x (h.finished_selected x hx) hk.symm

/-- The walk starts at a node that is selected and being visited. -/
def start (S : System ν κ ε) (root : ν) : State ν κ ε where
  selected := fun k => if S.key root = k then some root else none
  trail := []
  visiting := [S.key root]
  finished := []

theorem inv_start (S : System ν κ ε) (same : ν → ν → Prop) (root : ν) : Inv S same (start S root) := by
  have hsel : ∀ k x, (start S root).selected k = some x → S.key root = k ∧ root = x := fun k x hx => by
    change (if S.key root = k then some root else none) = some x at hx
    split_ifs at hx with hk
    exact ⟨hk, Option.some.inj hx⟩
  refine
    { visiting_nodup := List.nodup_singleton _
      visiting_selected := fun k hk => ?_
      key_selected := fun k x hx => ?_
      selected_finished := fun k x hx hk => ?_
      finished_selected := fun _ hx => absurd hx List.not_mem_nil
      finished_left := fun _ hx => absurd hx List.not_mem_nil
      finished_nodup := List.nodup_nil
      trail_source := fun _ ht => absurd ht List.not_mem_nil
      trail_edge := fun _ ht => absurd ht List.not_mem_nil
      trail_target := fun _ ht => absurd ht List.not_mem_nil
      trail_ne := fun _ ht => absurd ht List.not_mem_nil
      closed := fun _ hx => absurd hx List.not_mem_nil
      postorder := List.Pairwise.nil }
  · obtain rfl := List.mem_singleton.mp hk
    show (if S.key root = S.key root then some root else none) ≠ none
    rw [if_pos rfl]
    exact Option.some_ne_none root
  · obtain ⟨rfl, rfl⟩ := hsel k x hx
    rfl
  · obtain ⟨rfl, rfl⟩ := hsel k x hx
    exact absurd (List.mem_singleton_self _) hk

end Selecting

section Leaving

variable [DecidableEq ν]

def State.leave (s : State ν κ ε) (n : ν) : State ν κ ε :=
  { s with
    visiting := s.visiting.dropLast
    finished := if n ∈ s.finished then s.finished else s.finished ++ [n] }

/-- Leaving a node whose edges are taken. -/
theorem Inv.leave {v : List κ} (h : Inv S same s) (hv : s.visiting = v ++ [S.key m])
    (hsel : s.selected (S.key m) = some m)
    (hclosed : ∀ e ∈ S.edges m, Taken S s m e) :
    Inv S same (s.leave m) ∧ (s.leave m).visiting = v ∧ (s.leave m).finished = s.finished ++ [m] := by
  have hin : S.key m ∈ s.visiting := by rw [hv]; simp
  have hm : m ∉ s.finished := fun hm => h.finished_left m hm hin
  have hvis : (s.leave m).visiting = v := by rw [State.leave, hv, List.dropLast_concat]
  have hfin : (s.leave m).finished = s.finished ++ [m] := by rw [State.leave, if_neg hm]
  have hout : S.key m ∉ v := by
    have hnd := h.visiting_nodup
    rw [hv, List.nodup_append] at hnd
    exact fun hk => hnd.2.2 _ hk _ (List.mem_singleton_self _) rfl
  have hsub : ∀ {k}, k ∈ v → k ∈ s.visiting := fun hk => hv ▸ List.mem_append_left _ hk
  have hmem : ∀ {x}, x ∈ (s.leave m).finished ↔ x ∈ s.finished ∨ x = m := by
    intro x
    rw [hfin, List.mem_append, List.mem_singleton]
  refine ⟨?_, hvis, hfin⟩
  refine
    { visiting_nodup := ?_
      visiting_selected := fun k hk => h.visiting_selected k (hsub (hvis ▸ hk))
      key_selected := h.key_selected
      selected_finished := fun k x hx hk => hmem.mpr ?_
      finished_selected := fun x hx => ?_
      finished_left := fun x hx => ?_
      finished_nodup := ?_
      trail_source := h.trail_source
      trail_edge := h.trail_edge
      trail_target := fun t ht => ?_
      trail_ne := h.trail_ne
      closed := fun x hx => ?_
      postorder := ?_ }
  · have hnd := h.visiting_nodup
    rw [hv, List.nodup_append] at hnd
    rw [hvis]
    exact hnd.1
  · by_cases hkm : k = S.key m
    · subst hkm
      exact .inr (Option.some.inj (hx.symm.trans hsel))
    · refine .inl (h.selected_finished k x hx fun hin => hk ?_)
      rw [hv, List.mem_append, List.mem_singleton] at hin
      exact hvis ▸ hin.resolve_right hkm
  · rcases hmem.mp hx with hx | rfl
    · exact h.finished_selected x hx
    · exact hsel
  · rw [hvis]
    rcases hmem.mp hx with hx | rfl
    · exact fun hk => h.finished_left x hx (hsub hk)
    · exact hout
  · rw [hfin, List.map_append, List.nodup_append]
    refine ⟨h.finished_nodup, List.nodup_singleton _, ?_⟩
    rintro a ha b hb rfl
    obtain ⟨x, hx, rfl⟩ := List.mem_map.mp ha
    exact h.finished_left x hx (List.mem_singleton.mp hb ▸ hin)
  · obtain ⟨x, hx, hkey⟩ := h.trail_target t ht
    exact ⟨x, hmem.mpr (.inl hx), hkey⟩
  · rcases hmem.mp hx with hx | rfl
    · exact h.closed x hx
    · exact hclosed
  · rw [hfin, List.pairwise_append]
    refine ⟨h.postorder, List.pairwise_singleton _ _, fun a ha b hb t ht _ hk => ?_⟩
    obtain ⟨x, hx, hkey, -⟩ := h.trail_target t ht
    rw [List.mem_singleton.mp hb] at hk
    exact h.finished_left x hx (hkey.trans hk ▸ hin)

end Leaving

/-! ## Walks -/

section Walks

variable [DecidableEq ν] [DecidableEq κ]

/-- The walk over the edges of a node, where it does not fail. -/
inductive Follows (S : System ν κ ε) (same : ν → ν → Prop) :
    ν → List ε → State ν κ ε → State ν κ ε → Prop
  | nil (n : ν) (s : State ν κ ε) : Follows S same n [] s s
  | skip {n : ν} {e : ε} {es : List ε} {s s' : State ν κ ε} : S.target n e = some none →
      Follows S same n es s s' → Follows S same n (e :: es) s s'
  | again {n m m' : ν} {e : ε} {es : List ε} {s s' : State ν κ ε} : S.target n e = some (some m) →
      S.key m ∉ s.visiting → s.selected (S.key m) = some m' → same m' m →
      Follows S same n es (s.take n e m) s' → Follows S same n (e :: es) s s'
  | visit {n m : ν} {e : ε} {es : List ε} {s s₁ s' : State ν κ ε} : S.target n e = some (some m) →
      S.key m ∉ s.visiting → s.selected (S.key m) = none →
      Follows S same m (S.edges m) ((s.select S m).enter S m) s₁ →
      Follows S same n es ((s₁.leave m).take n e m) s' → Follows S same n (e :: es) s s'

/-- The walk over the remaining edges of a node keeps the invariant, and takes them. -/
theorem Follows.inv (hrefl : ∀ n, same n n)
    (h : Follows S same n es s s') (hinv : Inv S same s) (hn : S.key n ∈ s.visiting)
    (hsel : s.selected (S.key n) = some n) (hes : ∀ e ∈ es, e ∈ S.edges n) :
    Inv S same s' ∧ Grows s s' ∧ ∀ e ∈ es, Taken S s' n e := by
  induction h with
  | nil => exact ⟨hinv, Grows.refl _, fun e he => absurd he List.not_mem_nil⟩
  | skip htarget _ ih =>
    obtain ⟨hinv', hgrows, htaken⟩ := ih hinv hn hsel fun e he => hes e (List.mem_cons_of_mem _ he)
    refine ⟨hinv', hgrows, fun e he => ?_⟩
    rcases List.mem_cons.mp he with rfl | he
    · exact .inl htarget
    · exact htaken e he
  | @again n m m' e es s s' htarget hvisiting hselected hsame _ ih =>
    have hfin : ∃ x ∈ s.finished, S.key x = S.key m ∧ same x m :=
      ⟨m', hinv.selected_finished _ m' hselected hvisiting, hinv.key_selected _ m' hselected, hsame⟩
    have htake := hinv.take hn hsel (hes e (List.mem_cons_self ..)) htarget hfin
    obtain ⟨hinv', hgrows, htaken⟩ :=
      ih htake hn hsel fun x hx => hes x (List.mem_cons_of_mem _ hx)
    refine ⟨hinv', (grows_take s n e m).trans hgrows, fun x hx => ?_⟩
    rcases List.mem_cons.mp hx with rfl | hx
    · exact .inr ⟨m, htarget, hgrows.trail _ (List.mem_append_right _ (List.mem_singleton_self _))⟩
    · exact htaken x hx
  | @visit n m e es s s₁ s' htarget hvisiting hselected _ _ ihm ih =>
    have hself : ((s.select S m).enter S m).selected (S.key m) = some m := if_pos rfl
    obtain ⟨hinv₁, hgrows₁, htaken₁⟩ := ihm (hinv.enter hselected)
      (List.mem_append_right _ (List.mem_singleton_self _)) hself fun _ => id
    have hself₁ := hgrows₁.selected _ _ hself
    obtain ⟨hleave, hvis, hfin⟩ := hinv₁.leave hgrows₁.visiting hself₁ htaken₁
    have hold : ∀ k x, s.selected k = some x → s₁.selected k = some x := fun k x hx => by
      refine hgrows₁.selected k x ?_
      show (if S.key m = k then some m else s.selected k) = some x
      split_ifs with hk
      · rw [hk, hx] at hselected
        cases hselected
      · exact hx
    have hgrows : Grows s (s₁.leave m) :=
      ⟨hvis, hold, hgrows₁.trail, fun x hx => hfin ▸ List.mem_append_left _ (hgrows₁.finished x hx)⟩
    have hmfin : m ∈ (s₁.leave m).finished :=
      hfin ▸ List.mem_append_right _ (List.mem_singleton_self _)
    have htake := hleave.take (hvis.symm ▸ hn) (hold _ n hsel) (hes e (List.mem_cons_self ..))
      htarget ⟨m, hmfin, rfl, hrefl m⟩
    have hgrowsTake := hgrows.trans (grows_take (s₁.leave m) n e m)
    obtain ⟨hinv', hgrows', htaken⟩ := ih htake (hgrowsTake.visiting.symm ▸ hn)
      (hgrowsTake.selected _ n hsel) fun x hx => hes x (List.mem_cons_of_mem _ hx)
    refine ⟨hinv', hgrowsTake.trans hgrows', fun x hx => ?_⟩
    rcases List.mem_cons.mp hx with rfl | hx
    · exact .inr ⟨m, htarget, hgrows'.trail _ (List.mem_append_right _ (List.mem_singleton_self _))⟩
    · exact htaken x hx

/-- The end of a walk from a root. -/
def Walked (S : System ν κ ε) (same : ν → ν → Prop) (root : ν) (s : State ν κ ε) : Prop :=
  ∃ s₀, Follows S same root (S.edges root) (start S root) s₀ ∧ s = s₀.leave root

variable {root : ν}

/-- **A walk keeps the invariant, and finishes its root.** -/
theorem Walked.inv (hrefl : ∀ n, same n n) (h : Walked S same root s) :
    Inv S same s ∧ s.visiting = [] ∧ root ∈ s.finished := by
  obtain ⟨s₀, hfollows, rfl⟩ := h
  have hroot : (start S root).selected (S.key root) = some root := if_pos rfl
  obtain ⟨hinv, hgrows, htaken⟩ := hfollows.inv hrefl (inv_start S same root)
    (List.mem_singleton_self _) hroot fun _ => id
  obtain ⟨hleave, hvis, hfin⟩ :=
    hinv.leave (v := []) hgrows.visiting (hgrows.selected _ _ hroot) htaken
  exact ⟨hleave, hvis, hfin ▸ List.mem_append_right _ (List.mem_singleton_self _)⟩

/-- What targets inherit holds of every node selected. -/
theorem Follows.selected_of {P : ν → Prop} (hP : ∀ n e m, P n → e ∈ S.edges n →
    S.target n e = some (some m) → P m)
    (h : Follows S same n es s s') (hes : ∀ e ∈ es, e ∈ S.edges n) (hn : P n)
    (hs : ∀ k x, s.selected k = some x → P x) : ∀ k x, s'.selected k = some x → P x := by
  induction h with
  | nil => exact hs
  | skip _ _ ih => exact ih (fun x hx => hes x (List.mem_cons_of_mem _ hx)) hn hs
  | again _ _ _ _ _ ih => exact ih (fun x hx => hes x (List.mem_cons_of_mem _ hx)) hn hs
  | @visit n m e es s s₁ s' htarget _ _ _ _ ihm ih =>
    have hm : P m := hP n e m hn (hes e (List.mem_cons_self ..)) htarget
    refine ih (fun x hx => hes x (List.mem_cons_of_mem _ hx)) hn
      (ihm (fun _ => id) hm fun k x hx => ?_)
    change (if S.key m = k then some m else s.selected k) = some x at hx
    split_ifs at hx with hk
    · exact Option.some.inj hx ▸ hm
    · exact hs k x hx

/-- Every node finished is the root or inherits from it. -/
theorem Walked.finished_of {P : ν → Prop} (hrefl : ∀ n, same n n) (h : Walked S same root s)
    (hroot : P root) (hP : ∀ n e m, P n → e ∈ S.edges n →
    S.target n e = some (some m) → P m) : ∀ n ∈ s.finished, P n := by
  intro n hn
  have hsel := (h.inv hrefl).1.finished_selected n hn
  obtain ⟨s₀, hfollows, rfl⟩ := h
  refine hfollows.selected_of hP (fun _ => id) hroot (fun k x hx => ?_) _ n hsel
  change (if S.key root = k then some root else none) = some x at hx
  split_ifs at hx
  exact Option.some.inj hx ▸ hroot

end Walks

end AI2Apps.DepthFirst
