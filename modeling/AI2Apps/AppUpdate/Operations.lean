import AI2Apps.AppUpdate.Transaction

/-!
# The App update transaction: its operations

One rule for each file operation: what holds after it when it answers, when it raises,
and when the process dies in its middle.  The programs are taken apart with these rules
and never with what an operation computes.
-/

namespace AI2Apps.AppUpdate

open Programs

variable {α : Type}

@[simp] theorem World.files_put (w : World α) (path other : Path) (node : Option (Node α)) :
    (w.put path node).files other = if other = path then node else w.files other :=
  Function.update_apply w.files path node other

@[simp] theorem World.passed_put (w : World α) (path : Path) (node : Option (Node α)) :
    (w.put path node).passed = w.passed := rfl

@[simp] theorem World.lockLeft_put (w : World α) (path : Path) (node : Option (Node α)) :
    (w.put path node).lockLeft = w.lockLeft := rfl

@[simp] theorem World.put_self (w : World α) (path : Path) : w.put path (w.files path) = w := by
  rw [World.put, Function.update_eq_self]

theorem World.removalCut_eq (w : World α) (path : Path) (remainder : α) :
    ∃ node, w.removalCut path remainder = w.put path node := by
  unfold World.removalCut
  split
  · exact ⟨_, rfl⟩
  · exact ⟨w.files path, (w.put_self path).symm⟩

theorem World.copyCut_eq (w : World α) (destination : Path) (debris : Option (Node α)) :
    ∃ node, w.copyCut destination debris = w.put destination node := by
  unfold World.copyCut
  split
  · exact ⟨w.files destination, (w.put_self destination).symm⟩
  · exact ⟨debris, rfl⟩

theorem World.occupied_iff {w : World α} {path : Path} :
    w.occupied path = true ↔ ∃ node, w.files path = some node := Option.isSome_iff_exists

theorem World.free_iff {w : World α} {path : Path} :
    w.occupied path = false ↔ w.files path = none := Option.isSome_eq_false_iff.trans
  Option.isNone_iff_eq_none

/-- A copy and a move need their source and no destination. -/
theorem World.transfers_iff {w : World α} {source destination : Path} :
    (w.occupied source && !w.occupied destination) = true ↔
      (∃ node, w.files source = some node) ∧ w.files destination = none := by
  rw [Bool.and_eq_true, Bool.not_eq_true', World.occupied_iff, World.free_iff]

/-! ## The rules -/

section Rules

variable {E : Failure → World α → Prop} {C : World α → Prop} {w : World α}

/-- An operation that is not cut off in its middle. -/
theorem wpc_ask {op : FileOp α} {Q : op.Answer → World α → Prop} (hC : C w)
    (hcut : ∀ c, cut op c w = w)
    (hok : ∀ c a, (perform op c w).1 = .ok a → Q a (perform op c w).2)
    (herror : ∀ c e, (perform op c w).1 = .error e → E e (perform op c w).2) :
    wpc (semantics α) Q E C (ask op) w := by
  refine wpc_perform ⟨hC, fun c => ?_⟩ hok herror
  show C (cut op c w)
  rw [hcut c]
  exact hC

theorem wpc_fileExists {Q : Bool → World α → Prop} {path : Path} (hC : C w)
    (hQ : ∀ found, (found = true → (w.files path).any Node.reachable = true) → Q found w) :
    wpc (semantics α) Q E C (fileExists path) w := by
  refine wpc_ask hC (fun _ => rfl) (fun c found h => ?_) (fun c e h => nomatch h)
  obtain rfl := Except.ok.inj h
  exact hQ _ fun h => (Bool.and_eq_true_iff.mp h).2

theorem wpc_rejectSymbolicLink {Q : Unit → World α → Prop} {path : Path} (hC : C w)
    (hQ : w.files.isApp path = true → Q () w) (hE : ∀ e, e ≠ .transaction .updateInProgress →
      (∀ reason, e ≠ .transaction (.rollbackFailed reason)) → E e w) :
    wpc (semantics α) Q E C (rejectSymbolicLink path) w := by
  unfold rejectSymbolicLink
  rw [wpc_bind]
  refine wpc_ask hC (fun _ => rfl) (fun c values h => ?_) (fun c e h => ?_)
  · rw [wpc_ensure]
    refine ⟨fun hvalues => hQ ?_, fun _ => hE _ nofun nofun⟩
    replace h : readValues c path w = .ok values := h
    unfold readValues at h
    split at h
    · rename_i node hnode
      obtain rfl := Except.ok.inj h
      rw [FileSystem.isApp, hnode]
      exact (Bool.and_eq_true_iff.mp hvalues).2
    · exact nomatch h
    · exact nomatch h
  · replace h : readValues c path w = .error e := h
    unfold readValues at h
    split at h
    · exact nomatch h
    · obtain rfl := Except.error.inj h
      exact hE _ nofun nofun
    · obtain rfl := Except.error.inj h
      exact hE _ nofun nofun

theorem examine_ok {c : Chance α} {accepts : Node α → Bool} {path : Path} {answer : Bool}
    (h : examine c accepts path w = .ok answer) : (w.files path).any accepts = answer := by
  unfold examine at h
  split at h
  · exact nomatch h
  · exact Except.ok.inj h

theorem examine_error {c : Chance α} {accepts : Node α → Bool} {path : Path} {e : Failure}
    (h : examine c accepts path w = .error e) : ∃ description, e = .other description := by
  unfold examine at h
  split at h
  · exact ⟨_, (Except.error.inj h).symm⟩
  · exact nomatch h

theorem wpc_validate {Q : Unit → World α → Prop} {accepts : Node α → Bool} {path : Path}
    (hC : C w) (hQ : (w.files path).any accepts = true → Q () w)
    (hE : ∀ description, E (.other description) w) :
    wpc (semantics α) Q E C (validate accepts path) w := by
  refine wpc_ask hC (fun _ => rfl) (fun c a h => ?_) (fun c e h => ?_)
  · replace h : judge c accepts path w = .ok () := h
    unfold judge at h
    split at h
    · exact hQ (examine_ok ‹_›)
    · exact nomatch h
    · exact nomatch h
  · replace h : judge c accepts path w = .error e := h
    unfold judge at h
    split at h
    · exact nomatch h
    · obtain rfl := Except.error.inj h
      exact hE _
    · rename_i e' hexamine
      obtain ⟨description, rfl⟩ := examine_error hexamine
      obtain rfl := Except.error.inj h
      exact hE description

theorem wpc_healthCheck {Q : Bool → World α → Prop} {healthy : Node α → Bool} {path : Path}
    (hC : C w) (hQ : ∀ answer, Q answer { w with passed := answer })
    (hE : ∀ description, E (.other description) w) :
    wpc (semantics α) Q E C (ask (.healthCheck healthy path)) w := by
  refine wpc_ask hC (fun _ => rfl) (fun c a h => ?_) (fun c e h => ?_)
  · replace h : (checkHealth c healthy path w).1 = .ok a := h
    show Q a (checkHealth c healthy path w).2
    unfold checkHealth at h ⊢
    split at h
    · obtain rfl := Except.ok.inj h
      exact hQ _
    · exact nomatch h
  · replace h : (checkHealth c healthy path w).1 = .error e := h
    show E e (checkHealth c healthy path w).2
    unfold checkHealth at h ⊢
    split at h
    · exact nomatch h
    · rename_i e' hexamine
      obtain ⟨description, rfl⟩ := examine_error hexamine
      obtain rfl := Except.error.inj h
      exact hE description

theorem wpc_uuid {Q : String → World α → Prop} (hC : C w) (hQ : ∀ uuid, Q uuid w) :
    wpc (semantics α) Q E C (ask .uuid) w := by
  refine wpc_ask hC (fun _ => rfl) (fun c uuid h => ?_) (fun c e h => nomatch h)
  exact hQ uuid

theorem wpc_moveItem {Q : Unit → World α → Prop} {source destination : Path} (hC : C w)
    (hQ : ∀ node, w.files source = some node → w.files destination = none →
      Q () ((w.put destination (some node)).put source none))
    (hE : ∀ description, E (.other description) w) :
    wpc (semantics α) Q E C (moveItem source destination) w := by
  refine wpc_ask hC (fun _ => rfl) (fun c a h => ?_) (fun c e h => ?_)
  · replace h : (move c source destination w).1 = .ok () := h
    show Q () (move c source destination w).2
    unfold move at h ⊢
    split at h
    · exact nomatch h
    · split at h
      · rename_i htransfers
        obtain ⟨⟨node, hsource⟩, hdestination⟩ := World.transfers_iff.mp htransfers
        rw [if_pos htransfers, hsource]
        exact hQ node hsource hdestination
      · exact nomatch h
  · replace h : (move c source destination w).1 = .error e := h
    show E e (move c source destination w).2
    unfold move at h ⊢
    split at h
    · obtain rfl := Except.error.inj h
      exact hE _
    · split at h
      · exact nomatch h
      · rename_i htransfers
        obtain rfl := Except.error.inj h
        rw [if_neg htransfers]
        exact hE _

theorem wpc_copyItem {Q : Unit → World α → Prop} {source : Path} {uuid : String}
    (hC : ∀ node, C (w.put (.staged uuid) node))
    (hQ : ∀ node, w.files source = some node → Q () (w.put (.staged uuid) (some node)))
    (hE : ∀ description node, E (.other description) (w.put (.staged uuid) node)) :
    wpc (semantics α) Q E C (ask (.copyItem source uuid)) w := by
  have hCw : C w := w.put_self (.staged uuid) ▸ hC (w.files (.staged uuid))
  refine wpc_perform ⟨hCw, fun c => ?_⟩ (fun c a h => ?_) (fun c e h => ?_)
  · obtain ⟨node, hnode⟩ := w.copyCut_eq (.staged uuid) c.debris
    show C (w.copyCut (.staged uuid) c.debris)
    exact hnode ▸ hC node
  · replace h : (copy c source (.staged uuid) w).1 = .ok () := h
    show Q () (copy c source (.staged uuid) w).2
    unfold copy at h ⊢
    split at h
    · exact nomatch h
    · split at h
      · rename_i htransfers
        obtain ⟨⟨node, hsource⟩, -⟩ := World.transfers_iff.mp htransfers
        rw [if_pos htransfers, hsource]
        exact hQ node hsource
      · exact nomatch h
  · replace h : (copy c source (.staged uuid) w).1 = .error e := h
    show E e (copy c source (.staged uuid) w).2
    unfold copy at h ⊢
    split at h
    · obtain rfl := Except.error.inj h
      obtain ⟨node, hnode⟩ := w.copyCut_eq (.staged uuid) c.debris
      exact hnode ▸ hE _ node
    · split at h
      · exact nomatch h
      · rename_i htransfers
        obtain rfl := Except.error.inj h
        rw [if_neg htransfers]
        exact w.put_self (.staged uuid) ▸ hE _ (w.files (.staged uuid))

/-- A removal changes one path, whatever becomes of it. -/
theorem wpc_removeItem {Q : Unit → World α → Prop} {path : Path} (hpath : path ≠ .lock)
    (hC : ∀ node, C (w.put path node)) (hQ : ∀ node, Q () (w.put path node))
    (hE : ∀ description node, E (.other description) (w.put path node)) :
    wpc (semantics α) Q E C (removeItem path) w := by
  have hCw : C w := w.put_self path ▸ hC (w.files path)
  refine wpc_perform ⟨hCw, fun c => ?_⟩ (fun c a h => ?_) (fun c e h => ?_)
  · obtain ⟨node, hnode⟩ := w.removalCut_eq path c.remainder
    show C (w.removalCut path c.remainder)
    exact hnode ▸ hC node
  · replace h : (remove c path w).1 = .ok () := h
    show Q () (remove c path w).2
    unfold remove at h ⊢
    split at h
    · exact nomatch h
    · split at h
      · rw [if_pos ‹_›]
        exact hQ none
      · exact nomatch h
  · replace h : (remove c path w).1 = .error e := h
    show E e (remove c path w).2
    unfold remove at h ⊢
    split at h
    · obtain rfl := Except.error.inj h
      obtain ⟨node, hnode⟩ := w.removalCut_eq path c.remainder
      rw [hnode, decide_eq_false hpath, Bool.false_and, Bool.or_false]
      exact hE _ node
    · split at h
      · exact nomatch h
      · rename_i hfree
        obtain rfl := Except.error.inj h
        rw [if_neg hfree]
        exact w.put_self path ▸ hE _ (w.files path)

/-- The removal of the lock: the lock is gone, or it is known to be left beside an App. -/
theorem wpc_removeLock {Q : World α → Prop} (hC : ∀ node, C (w.put .lock node))
    (hQ : ∀ node left, (node = none ∨ w.files.isApp .installedApp = false ∨ left = true) →
      Q { w.put .lock node with lockLeft := left }) :
    wpc (semantics α) (fun _ => Q) (fun _ => Q) C (removeItem .lock) w := by
  have hCw : C w := w.put_self .lock ▸ hC (w.files .lock)
  have hfreed : ∀ c, Q (remove c .lock w).2 := by
    intro c
    unfold remove
    split
    · obtain ⟨node, hnode⟩ := w.removalCut_eq .lock c.remainder
      rw [hnode, decide_eq_true rfl, Bool.true_and]
      cases happ : w.files.isApp .installedApp with
      | false => exact hQ node _ (Or.inr (Or.inl happ))
      | true => exact hQ node _ (Or.inr (Or.inr (Bool.or_true _)))
    · split
      · exact hQ none w.lockLeft (Or.inl rfl)
      · rename_i hfree
        have hnone := World.free_iff.mp (Bool.eq_false_iff.mpr hfree)
        have := hQ (w.files .lock) w.lockLeft (Or.inl hnone)
        rwa [World.put_self] at this
  refine wpc_perform ⟨hCw, fun c => ?_⟩ (fun c a _ => hfreed c) (fun c e _ => hfreed c)
  obtain ⟨node, hnode⟩ := w.removalCut_eq .lock c.remainder
  show C (w.removalCut .lock c.remainder)
  exact hnode ▸ hC node

theorem wpc_createLock {Q : Unit → World α → Prop} (hC : C w)
    (hQ : w.files .lock = none → Q () (w.put .lock (some .file)))
    (hE : ∀ e, (e = .transaction .updateInProgress → w.files .lock ≠ none) → E e w) :
    wpc (semantics α) Q E C createLock w := by
  unfold createLock
  rw [wpc_bind]
  refine wpc_ask hC (fun _ => rfl) (fun c opened h => ?_) (fun c e h => nomatch h)
  replace h : (openExclusive c .lock w).1 = opened := Except.ok.inj h
  show wpc _ _ _ _ _ (openExclusive c .lock w).2
  unfold openExclusive at h ⊢
  split at h
  · subst h
    exact hE _ nofun
  · split at h
    · rename_i hoccupied
      subst h
      rw [if_pos hoccupied]
      obtain ⟨node, hnode⟩ := World.occupied_iff.mp hoccupied
      exact hE _ fun _ => by rw [hnode]; exact Option.some_ne_none node
    · rename_i hfree
      subst h
      rw [if_neg hfree]
      exact hQ (World.free_iff.mp (Bool.eq_false_iff.mpr hfree))

end Rules

end AI2Apps.AppUpdate
