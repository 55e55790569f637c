import AI2Apps.Context.Journal

/-!
# Surfaces

What a serial journal of faithful replacements makes of the records of a session, whatever
these are by now: a surface with the words of the user and with every call before its result.

* `foldl_apply_induction`: what each replacement keeps, all of them keep.
* `unique_foldl`: no id comes twice.
* `surfaced_replay`, `snapshot_eq_ok`: the surface can be built.
* `protectedUsers_replay`: the words of the user.
* `pendingAfter_replay`: the open calls.
-/

namespace AI2Apps.Context

variable {floats : FloatText} {nodes more : List Node} {rs : List Replacement}
  {closed : List Started} {current : Option Started} {journal : List Entry}

theorem forall_mem_replace {P : Node → Prop} {before part after : List Node} {summary : Node}
    (h : ∀ n ∈ before ++ part ++ after, P n) (hsummary : P summary) :
    ∀ n ∈ before ++ [summary] ++ after, P n := by
  rw [List.forall_mem_append, List.forall_mem_append] at h ⊢
  exact ⟨⟨h.1.1, List.forall_mem_singleton.mpr hsummary⟩, h.2⟩

/-- What each replacement keeps, wherever its part stands, all of them keep. -/
theorem foldl_apply_induction {P : List Node → Prop} (hfaithful : ∀ r ∈ rs, Faithful floats r)
    (hunpinned : ∀ n ∈ nodes, n.pinned = false)
    (hstep : ∀ r ∈ rs, ∀ before after, P (before ++ r.part ++ after) →
      P (before ++ [r.summary] ++ after))
    (hP : P nodes) :
    (∀ n ∈ rs.foldl (Replacement.apply floats) nodes, n.pinned = false) ∧
      P (rs.foldl (Replacement.apply floats) nodes) := by
  induction rs generalizing nodes with
  | nil => exact ⟨hunpinned, hP⟩
  | cons r rs ih =>
    obtain ⟨hr, hfaithful⟩ := List.forall_mem_cons.mp hfaithful
    obtain ⟨hstep, hsteps⟩ := List.forall_mem_cons.mp hstep
    rw [List.foldl_cons]
    rcases r.apply_cases floats hunpinned with heq | ⟨before, after, rfl, heq⟩
    · rw [heq]
      exact ih hfaithful hunpinned hsteps hP
    · rw [heq]
      exact ih hfaithful (forall_mem_replace hunpinned hr.unpinned) hsteps (hstep before after hP)

/-- The id of the memory of a transaction. -/
def memoryId (transaction : Str) : Str := str "memory:" ++ transaction

theorem memoryId_injective : Function.Injective memoryId := fun _ _ h => List.append_cancel_left h

theorem map_id_part (r : Replacement) : r.part.map Node.id = r.source.map Source.id := by
  rw [Replacement.part, List.map_map]
  rfl

/-- One replacement leaves the ids different, unless its memory was there before. -/
theorem Faithful.unique_replace {r : Replacement} {before after : List Node}
    (hr : Faithful floats r) (hunique : ((before ++ r.part ++ after).map Node.id).Nodup)
    (hfirst : memoryId r.transaction ∉ (before ++ r.part ++ after).map Node.id) :
    ((before ++ [r.summary] ++ after).map Node.id).Nodup := by
  simp only [List.map_append, List.map_singleton] at hunique hfirst ⊢
  rcases hr.ident with hid | hid
  · have hrest : (before.map Node.id ++ after.map Node.id).Nodup :=
      hunique.sublist ((List.sublist_append_left _ _).append (.refl _))
    rw [List.append_assoc, List.singleton_append, List.nodup_middle]
    refine List.nodup_cons.mpr ⟨fun hmem => hfirst ?_, hrest⟩
    rw [memoryId, ← hid]
    rcases List.mem_append.mp hmem with hmem | hmem
    · exact List.mem_append_left _ (List.mem_append_left _ hmem)
    · exact List.mem_append_right _ hmem
  · rw [hid, ← map_id_part]
    exact hunique

/-- It brings the memory of no other transaction. -/
theorem Faithful.fresh_replace {r : Replacement} {before after : List Node} {transaction : Str}
    (hr : Faithful floats r) (hne : transaction ≠ r.transaction)
    (hfresh : memoryId transaction ∉ (before ++ r.part ++ after).map Node.id) :
    memoryId transaction ∉ (before ++ [r.summary] ++ after).map Node.id := by
  simp only [List.map_append, List.map_singleton, List.mem_append, not_or] at hfresh ⊢
  refine ⟨⟨hfresh.1.1, fun hmem => ?_⟩, hfresh.2⟩
  rcases hr.ident with hid | hid
  · rw [List.mem_singleton, hid] at hmem
    exact hne (memoryId_injective hmem)
  · rw [hid, ← map_id_part] at hmem
    exact hfresh.1.2 hmem

/-- **No id comes twice**, as each transaction replaces once. -/
theorem unique_foldl (hfaithful : ∀ r ∈ rs, Faithful floats r)
    (hnodup : (rs.map Replacement.transaction).Nodup) (hunpinned : ∀ n ∈ nodes, n.pinned = false)
    (hunique : (nodes.map Node.id).Nodup)
    (hfresh : ∀ r ∈ rs, memoryId r.transaction ∉ nodes.map Node.id) :
    ((rs.foldl (Replacement.apply floats) nodes).map Node.id).Nodup := by
  induction rs generalizing nodes with
  | nil => exact hunique
  | cons r rs ih =>
    obtain ⟨hr, hfaithful⟩ := List.forall_mem_cons.mp hfaithful
    obtain ⟨hfirst, hfresh⟩ := List.forall_mem_cons.mp hfresh
    obtain ⟨hother, hnodup⟩ := List.nodup_cons.mp hnodup
    rw [List.foldl_cons]
    rcases r.apply_cases floats hunpinned with heq | ⟨before, after, rfl, heq⟩
    · rw [heq]
      exact ih hfaithful hnodup hunpinned hunique hfresh
    rw [heq]
    refine ih hfaithful hnodup (forall_mem_replace hunpinned hr.unpinned)
      (hr.unique_replace hunique hfirst) fun r' hr' => ?_
    have hne : r'.transaction ≠ r.transaction := fun h => hother (h ▸ List.mem_map_of_mem hr')
    exact hr.fresh_replace hne (hfresh r' hr')

/-! ## Records -/

/-- The messages of the user. -/
def userMessages (nodes : List Node) : List Json :=
  (nodes.filter fun n => n.message.role = some (str "user")).map fun n => n.message.body

theorem userMessages_append (nodes more : List Node) :
    userMessages (nodes ++ more) = userMessages nodes ++ userMessages more := by
  rw [userMessages, List.filter_append, List.map_append, userMessages, userMessages]

theorem usersOf_record {n : Node} (h : isMemory n.id = false) :
    usersOf floats n = .ok (userMessages [n]) := by
  rw [usersOf, h, userMessages, List.filter_cons]
  by_cases hrole : n.message.role = some (str "user")
  · rw [if_pos hrole, if_pos (decide_eq_true hrole)]
    rfl
  · rw [if_neg hrole, if_neg Bool.false_ne_true, if_neg (mt of_decide_eq_true hrole)]
    rfl

/-! ## The surface -/

/-- Nodes as the loop over the events leaves them. -/
structure Surfaced (floats : FloatText) (nodes : List Node) : Prop where
  unpinned : ∀ n ∈ nodes, n.pinned = false
  sane : ∀ n ∈ nodes, Sane floats n
  unique : (nodes.map Node.id).Nodup

theorem Base.sane (base : Base) (n : Node) (hn : n ∈ base.nodes) : Sane floats n := by
  have hid : ¬ isMemory n.id = true := by
    rw [base.recorded n hn]
    exact Bool.false_ne_true
  refine ⟨⟨_, usersOf_record (base.recorded n hn), fun u hu => ?_⟩, fun h => absurd h hid⟩
  obtain ⟨m, -, rfl⟩ := List.mem_map.mp hu
  exact m.message.written

theorem surfaced_replay (hserial : Serial closed current journal)
    (hfaithful : ∀ r ∈ replacements journal, Faithful floats r) (base : Base) :
    Surfaced floats (replay floats journal base.nodes) := by
  have hnodup : ((replacements journal).map Replacement.transaction).Nodup := by
    have hsublist := hserial.replacements_sublist.map Prod.fst
    rw [List.map_map, List.map_map] at hsublist
    have hclosed := hserial.nodup
    rw [List.map_append] at hclosed
    exact (hclosed.sublist (List.sublist_append_left _ _)).sublist hsublist
  have hsane := foldl_apply_induction (P := fun nodes => ∀ n ∈ nodes, Sane floats n) hfaithful
    base.unpinned (fun r hr _ _ h => forall_mem_replace h (hfaithful r hr).sane) base.sane
  refine ⟨hsane.1, hsane.2, unique_foldl hfaithful hnodup base.unpinned base.unique fun r _ hmem => ?_⟩
  obtain ⟨n, hn, hid⟩ := List.mem_map.mp hmem
  have hrecorded := base.recorded n hn
  rw [hid] at hrecorded
  exact Bool.false_ne_true (hrecorded.symm.trans (isMemory_append r.transaction))

/-- **The surface can be built.** -/
theorem snapshot_eq_ok (sessionId : Str) (hserial : Serial closed current journal)
    (hfaithful : ∀ r ∈ replacements journal, Faithful floats r) (base : Base) :
    ∃ surface, snapshot floats sessionId journal base = .ok surface ∧
      surface.sessionId = sessionId ∧
      surface.nodes = pinLast (replay floats journal base.nodes) := by
  have hunique : ((pinLast (replay floats journal base.nodes)).map Node.id).Nodup := by
    rw [map_pinLast Node.id fun _ => rfl]
    exact (surfaced_replay hserial hfaithful base).unique
  refine ⟨⟨sessionId, _, hunique⟩, ?_, rfl, rfl⟩
  rw [snapshot, Surface.make, dif_pos hunique]

/-! ## The words of the user -/

theorem protectedUsers_base (hrecorded : ∀ n ∈ nodes, isMemory n.id = false) :
    protectedUsers floats nodes = .ok (userMessages nodes) := by
  induction nodes with
  | nil => rfl
  | cons n nodes ih =>
    obtain ⟨hn, hrecorded⟩ := List.forall_mem_cons.mp hrecorded
    rw [← List.singleton_append, userMessages_append]
    exact protectedUsers_append (protectedUsers_singleton (usersOf_record hn)) (ih hrecorded)

/-- **The words of the user stay**, whatever was replaced. -/
theorem protectedUsers_replay (hfaithful : ∀ r ∈ replacements journal, Faithful floats r)
    (base : Base) :
    ∃ users, protectedUsers floats (replay floats journal base.nodes) = .ok users ∧
      Kept (userMessages base.nodes) users := by
  refine (foldl_apply_induction (P := fun nodes => ∃ users,
    protectedUsers floats nodes = .ok users ∧ Kept (userMessages base.nodes) users) hfaithful
    base.unpinned (fun r hr before after h => ?_) ⟨_, protectedUsers_base base.recorded, .refl _⟩).2
  obtain ⟨users, h, hkept⟩ := h
  obtain ⟨front, right, hfront, hright, rfl⟩ := protectedUsers_of_append h
  obtain ⟨left, middle, hleft, hmiddle, rfl⟩ := protectedUsers_of_append hfront
  obtain ⟨own, own', hown, hown', hr⟩ := (hfaithful r hr).users
  obtain rfl := Except.ok.inj (hmiddle.symm.trans hown)
  refine ⟨left ++ own' ++ right, ?_, hkept.trans (((Kept.refl left).append hr).append (.refl right))⟩
  exact protectedUsers_append (protectedUsers_append hleft (protectedUsers_singleton hown')) hright

/-- **The open calls stay**, whatever was replaced. -/
theorem pendingAfter_replay (hfaithful : ∀ r ∈ replacements journal, Faithful floats r)
    (base : Base) {p q : Finset Str} (h : pendingAfter p base.nodes = .ok q) :
    pendingAfter p (replay floats journal base.nodes) = .ok q :=
  (foldl_apply_induction (P := fun nodes => pendingAfter p nodes = .ok q) hfaithful base.unpinned
    (fun r hr _ _ h => pendingAfter_replace (hfaithful r hr).pairs h) h).2

end AI2Apps.Context
