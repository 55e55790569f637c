import AI2Apps.Context.Surfaces

/-!
# The operations on the journal

Each operation continues a serial journal of faithful replacements to another one, whatever
the records of the session are when it is called.

* `Good`: what holds of a state.
* `Good.adopt`, `Good.action`, `Good.pruneOldResults`, `Good.offloadOldestImage`: the steps.
* `Good.run`, `good_run`: runs.
-/

namespace AI2Apps.Context

variable {tools : Tools} {uuids : Uuids} {sessionId : Str} {closed : List Started}
  {current : Option Started} {s s' : State} {started : Started} {base : Base} {nodes : List Node}
  {surface : Surface} {n : Node}

/-- The journal is serial and its replacements are faithful, and its transactions were drawn. -/
structure Good (tools : Tools) (uuids : Uuids) (closed : List Started) (current : Option Started)
    (s : State) : Prop where
  serial : Serial closed current s.journal
  drawn : ∀ x ∈ closed ++ current.toList, ∃ k < s.drawn, x.transaction = uuids.hex k
  faithful : ∀ r ∈ replacements s.journal, Faithful tools.floats r

namespace Good

theorem initial : Good tools uuids [] none .initial where
  serial := .nil
  drawn _ hx := absurd hx List.not_mem_nil
  faithful _ hr := absurd hr List.not_mem_nil

theorem draw {journal : List Entry} {drawn drawn' : ℕ}
    (h : Good tools uuids closed current ⟨journal, drawn⟩) (hle : drawn ≤ drawn') :
    Good tools uuids closed current ⟨journal, drawn'⟩ where
  serial := h.serial
  drawn x hx := by
    obtain ⟨k, hk, heq⟩ := h.drawn x hx
    exact ⟨k, hk.trans_le hle, heq⟩
  faithful := h.faithful

theorem replacements_append {journal entries : List Entry} (h : ∀ e ∈ entries, e.replacement? = none) :
    replacements (journal ++ entries) = replacements journal := by
  rw [replacements, List.filterMap_append, List.filterMap_eq_nil_iff.mpr h, List.append_nil,
    replacements]

/-- A transaction is opened. -/
theorem start (h : Good tools uuids closed none s) {source : List Source} (hsource : source ≠ [])
    (runId : Str) : Good tools uuids closed (some ⟨uuids.hex s.drawn, source, runId⟩)
      (s.append [.started ⟨uuids.hex s.drawn, source, runId⟩] 1) where
  serial := by
    refine .start h.serial (fun hmem => ?_) hsource
    obtain ⟨x, hx, heq⟩ := List.mem_map.mp hmem
    obtain ⟨k, hk, hdrawn⟩ := h.drawn x (List.mem_append_left _ hx)
    exact absurd (uuids.injective (hdrawn.symm.trans heq)) hk.ne
  drawn := by
    have hclosed := h.drawn
    rw [Option.toList_none, List.append_nil] at hclosed
    refine List.forall_mem_append.mpr ⟨fun x hx => ?_, List.forall_mem_singleton.mpr
      ⟨s.drawn, Nat.lt_succ_self _, rfl⟩⟩
    obtain ⟨k, hk, heq⟩ := hclosed x hx
    exact ⟨k, hk.trans (Nat.lt_succ_self _), heq⟩
  faithful := by
    rw [State.append, replacements_append (List.forall_mem_singleton.mpr rfl)]
    exact h.faithful

/-- The open transaction is ended. -/
theorem finish (h : Good tools uuids closed (some started) s) (status : String)
    (reason : Option String) : Good tools uuids (closed ++ [started]) none
      (s.append [.ended started.transaction status reason] 0) where
  serial := .finish status reason h.serial
  drawn := by
    rw [Option.toList_none, List.append_nil]
    exact h.drawn
  faithful := by
    rw [State.append, replacements_append (List.forall_mem_singleton.mpr rfl)]
    exact h.faithful

/-- The open transaction replaces what it started with. -/
theorem replace (h : Good tools uuids closed (some started) s) {e : Entry} {summary : Node}
    (status : String)
    (he : e.replacement? = some ⟨started.transaction, started.source, summary⟩)
    (hfaithful : Faithful tools.floats ⟨started.transaction, started.source, summary⟩) :
    Good tools uuids (closed ++ [started]) none
      (s.append [e, .ended started.transaction status none] 0) where
  serial := .replace status h.serial he
  drawn := by
    rw [Option.toList_none, List.append_nil]
    exact h.drawn
  faithful := by
    rw [State.append, replacements, List.filterMap_append, List.filterMap_cons_some he]
    exact List.forall_mem_append.mpr ⟨h.faithful, List.forall_mem_singleton.mpr hfaithful⟩

theorem append_nil (h : Good tools uuids closed current s) :
    Good tools uuids closed current (s.append [] 0) := by
  rw [State.append, List.append_nil]
  exact h

/-- A projection is a transaction of its own. -/
theorem projected (h : Good tools uuids closed none s) {e : Entry} {summary : Node}
    (runId : Str) (status : String) (he : e.replacement? = some ⟨uuids.hex s.drawn, [n.source], summary⟩)
    (hfaithful : Faithful tools.floats ⟨uuids.hex s.drawn, [n.source], summary⟩) :
    Good tools uuids (closed ++ [⟨uuids.hex s.drawn, [n.source], runId⟩]) none
      (s.append (Context.projected ⟨uuids.hex s.drawn, [n.source], runId⟩ e status) 1) := by
  have hreplace := (h.start (List.cons_ne_nil n.source []) runId).replace status he hfaithful
  rw [State.append, State.append, List.append_assoc] at hreplace
  exact hreplace

/-- The snapshot of a good journal. -/
theorem snapshot (h : Good tools uuids closed current s) (base : Base)
    (hsurface : Context.snapshot tools.floats sessionId s.journal base = .ok surface) :
    ∃ nodes, Surfaced tools.floats nodes ∧ surface.nodes = pinLast nodes := by
  obtain ⟨surface', hok, -, hnodes⟩ := snapshot_eq_ok sessionId h.serial h.faithful base
  obtain rfl := Except.ok.inj (hok.symm.trans hsurface)
  exact ⟨_, surfaced_replay h.serial h.faithful base, hnodes⟩

end Good

/-! ## Surfaces with the newest node pinned -/

variable {floats : FloatText} {step : ModelStep} {call : Call} {runId readerAlias : Str}

theorem Sane.congr {m : Node} (h : Sane floats m) (hsource : n.source = m.source) :
    Sane floats n := by
  obtain ⟨hid, hm⟩ := Source.mk.inj hsource
  obtain ⟨users, husers, hwritten⟩ := h.users
  refine ⟨⟨users, (usersOf_congr hsource).trans husers, hwritten⟩, fun hmemory => ?_⟩
  rw [hm]
  exact h.role (hid ▸ hmemory)

theorem sane_pinLast (h : ∀ n ∈ nodes, Sane floats n) :
    ∀ n ∈ pinLast nodes, Sane floats n := by
  intro n hn
  have hsources : (pinLast nodes).map Node.source = nodes.map Node.source :=
    map_pinLast Node.source fun _ => rfl
  obtain ⟨m, hm, heq⟩ := List.mem_map.mp (hsources ▸ List.mem_map_of_mem hn)
  exact (h m hm).congr heq.symm

theorem written_of_sane {users : List Json} (h : ∀ n ∈ nodes, Sane floats n)
    (husers : protectedUsers floats nodes = .ok users) : ∀ u ∈ users, Written u := by
  induction nodes generalizing users with
  | nil =>
    obtain rfl := Except.ok.inj husers
    exact fun u hu => absurd hu List.not_mem_nil
  | cons n nodes ih =>
    obtain ⟨hn, h⟩ := List.forall_mem_cons.mp h
    obtain ⟨own, hown, husers⟩ := bind_eq_ok_iff.mp husers
    obtain ⟨rest, hrest, husers⟩ := bind_eq_ok_iff.mp husers
    obtain rfl := Except.ok.inj husers
    obtain ⟨own', hown', hwritten⟩ := hn.users
    obtain rfl := Except.ok.inj (hown.symm.trans hown')
    exact List.forall_mem_append.mpr ⟨hwritten, ih h hrest⟩

/-! ## `adopt` -/

/-- **What is committed** is the memory of what was started with. -/
theorem checkpoint_eq_ok {summary : Json.Object}
    (hsurface : ∃ nodes, Surfaced tools.floats nodes ∧ surface.nodes = pinLast nodes)
    (h : checkpoint tools surface started step summary = .ok n) :
    ∃ users tool, protectedUsers tools.floats (started.source.map Source.node) = .ok users ∧
      (∀ u ∈ users, Written u) ∧ pendingAfter ∅ (started.source.map Source.node) = .ok ∅ ∧
      n = memoryNode tools.floats ⟨step.transaction, tool⟩ summary users := by
  obtain ⟨nodes, hsurfaced, hnodes⟩ := hsurface
  unfold checkpoint at h
  split at h
  · cases h
  · split at h
    · cases h
    · rename_i start _
      dsimp only at h
      split_ifs at h with htexts
      obtain ⟨route, -, h⟩ := bind_eq_ok_iff.mp h
      obtain ⟨selected, hselected, h⟩ := bind_eq_ok_iff.mp h
      obtain ⟨users, husers, h⟩ := bind_eq_ok_iff.mp h
      obtain ⟨_, -, h⟩ := bind_eq_ok_iff.mp h
      obtain rfl := Except.ok.inj h
      obtain ⟨-, -, hsource, hplain, hclosed, -⟩ := prepareRange_eq_ok hselected
      have hpart : surface.span start (start + started.source.length) =
          started.source.map Source.node :=
        eq_map_node (fun n hn => (hplain n hn).1) (not_not.mp htexts)
      have hsane : ∀ n ∈ started.source.map Source.node, Sane tools.floats n := by
        intro n hn
        rw [← hpart] at hn
        refine sane_pinLast hsurfaced.sane n ?_
        rw [← hnodes]
        exact List.mem_of_mem_take (List.mem_of_mem_drop hn)
      rw [hsource, hpart] at husers
      rw [hpart] at hclosed
      exact ⟨users, _, husers, written_of_sane hsane husers, hclosed, rfl⟩

/-- A memory that passes the checks is committed. -/
theorem Good.commit {summary : Json.Object} (hgood : Good tools uuids closed (some started) s)
    (htransaction : started.transaction = step.transaction)
    (hsummary : summaryOf tools.floats step.output = some summary)
    (hsurface : Context.snapshot tools.floats sessionId s.journal base = .ok surface)
    (hnode : checkpoint tools surface started step summary = .ok n) :
    Good tools uuids (closed ++ [started]) none
      (s.append [.committed started.transaction started.source n step.id,
        .ended started.transaction "committed" none] 0) := by
  obtain ⟨users, tool, husers, hwritten, hclosed, rfl⟩ :=
    checkpoint_eq_ok (hgood.snapshot base hsurface) hnode
  have hsource : started.source ≠ [] :=
    hgood.serial.source_ne_nil _ (List.mem_append_right _ (Option.mem_toList.mpr rfl))
  rw [← htransaction]
  refine hgood.replace "committed" rfl ?_
  exact faithful_memory ⟨started.transaction, tool⟩ hsource hclosed husers
    (plain_summary hsummary) hwritten

theorem Good.adopt {entries : List Entry} (hgood : Good tools uuids closed current s)
    (h : Context.adopt tools sessionId s.journal base step = .ok entries) :
    ∃ closed current, Good tools uuids closed current (s.append entries 0) := by
  unfold Context.adopt at h
  split_ifs at h
  · obtain rfl := Except.ok.inj h
    exact ⟨_, _, hgood.append_nil⟩
  rw [hgood.serial.pending_eq] at h
  cases hcurrent : current.filter fun s => s.transaction = step.transaction with
  | none =>
    rw [hcurrent] at h
    obtain rfl := Except.ok.inj h
    exact ⟨_, _, hgood.append_nil⟩
  | some started =>
    rw [hcurrent] at h
    dsimp only at h
    obtain ⟨rfl, heq⟩ := Option.filter_eq_some_iff.mp hcurrent
    have htransaction : started.transaction = step.transaction := of_decide_eq_true heq
    rw [← htransaction] at h
    split at h
    · obtain rfl := Except.ok.inj h
      exact ⟨_, _, hgood.finish "invalid_summary" none⟩
    · rename_i summary hsummary
      obtain ⟨surface, hsurface, h⟩ := bind_eq_ok_iff.mp h
      split at h
      · rename_i node hnode
        obtain rfl := Except.ok.inj h
        exact ⟨_, _, hgood.commit htransaction hsummary hsurface hnode⟩
      · split at h
        · obtain rfl := Except.ok.inj h
          exact ⟨_, _, hgood.finish "rejected" _⟩
        · cases h

/-! ## `action` -/

theorem Good.reclaim {ended : List Entry} {own : Option Started} (hgood : Good tools uuids closed current s)
    (h : Context.reclaim s.journal call = .ok (ended, own)) :
    ∃ closed, Good tools uuids closed own (s.append ended 0) := by
  rw [Context.reclaim, hgood.serial.pending_eq] at h
  cases current with
  | none =>
    obtain ⟨rfl, rfl⟩ := Prod.mk.inj (Except.ok.inj h)
    exact ⟨_, hgood.append_nil⟩
  | some started =>
    dsimp only at h
    split_ifs at h
    · obtain ⟨rfl, rfl⟩ := Prod.mk.inj (Except.ok.inj h)
      exact ⟨_, hgood.finish "interrupted" none⟩
    · obtain ⟨rfl, rfl⟩ := Prod.mk.inj (Except.ok.inj h)
      exact ⟨_, hgood.append_nil⟩

theorem chooseSource_ne_nil {source : List Source} (h : chooseSource tools surface call = .ok (some source)) :
    source ≠ [] := by
  obtain ⟨_, -, h⟩ := bind_eq_ok_iff.mp h
  obtain ⟨_, -, h⟩ := bind_eq_ok_iff.mp h
  obtain ⟨_, -, h⟩ := bind_eq_ok_iff.mp h
  obtain ⟨selected, -, h⟩ := bind_eq_ok_iff.mp h
  cases selected with
  | none => cases Except.ok.inj h
  | some selected =>
    obtain ⟨bounded, -, h⟩ := bind_eq_ok_iff.mp h
    obtain ⟨safe, -, h⟩ := bind_eq_ok_iff.mp h
    dsimp only at h
    split_ifs at h with hempty
    · cases Except.ok.inj h
    · obtain ⟨digest, -, h⟩ := bind_eq_ok_iff.mp h
      split_ifs at h
      obtain rfl := Option.some.inj (Except.ok.inj h)
      exact fun hnil => hempty (List.isEmpty_iff.mpr hnil)

theorem Good.action {asked : Option ModelCallAction} (hgood : Good tools uuids closed current s)
    (h : Context.action tools uuids sessionId s base call = .ok (s', asked)) :
    ∃ closed current, Good tools uuids closed current s' := by
  unfold Context.action at h
  split_ifs at h
  · obtain ⟨rfl, -⟩ := Prod.mk.inj (Except.ok.inj h)
    exact ⟨_, _, hgood⟩
  obtain ⟨⟨ended, own⟩, hreclaim, h⟩ := bind_eq_ok_iff.mp h
  obtain ⟨surface, -, h⟩ := bind_eq_ok_iff.mp h
  obtain ⟨closed', hgood'⟩ := hgood.reclaim hreclaim
  cases own with
  | some started =>
    obtain ⟨_, -, h⟩ := bind_eq_ok_iff.mp h
    obtain ⟨rfl, -⟩ := Prod.mk.inj (Except.ok.inj h)
    exact ⟨_, _, hgood'⟩
  | none =>
    obtain ⟨chosen, hchosen, h⟩ := bind_eq_ok_iff.mp h
    cases chosen with
    | none =>
      obtain ⟨rfl, -⟩ := Prod.mk.inj (Except.ok.inj h)
      exact ⟨_, _, hgood'⟩
    | some source =>
      obtain ⟨_, -, h⟩ := bind_eq_ok_iff.mp h
      obtain ⟨rfl, -⟩ := Prod.mk.inj (Except.ok.inj h)
      have hstart := hgood'.start (chooseSource_ne_nil hchosen) call.runId
      rw [State.append, State.append, List.append_assoc] at hstart
      exact ⟨_, _, hstart⟩

/-! ## Projections -/

/-- Results are pruned one after the other, each in its own transaction. -/
theorem Good.pruneNodes {journal entries : List Entry} {drawn drawn' count : ℕ}
    (hgood : Good tools uuids closed none ⟨journal, drawn⟩) (hsane : ∀ n ∈ nodes, Sane tools.floats n)
    (h : Context.pruneNodes tools uuids runId readerAlias drawn count nodes = .ok (entries, drawn')) :
    ∃ closed, Good tools uuids closed none ⟨journal ++ entries, drawn'⟩ := by
  induction nodes generalizing closed journal drawn count entries with
  | nil =>
    obtain ⟨rfl, rfl⟩ := Prod.mk.inj (Except.ok.inj h)
    rw [List.append_nil]
    exact ⟨_, hgood⟩
  | cons n nodes ih =>
    obtain ⟨hn, hsane⟩ := List.forall_mem_cons.mp hsane
    rw [Context.pruneNodes] at h
    by_cases hpinned : n.pinned = true
    · rw [if_pos hpinned] at h
      exact ih hgood hsane h
    rw [if_neg hpinned] at h
    obtain ⟨summary, hsummary, h⟩ := bind_eq_ok_iff.mp h
    cases summary with
    | none => exact ih (hgood.draw (Nat.le_succ _)) hsane h
    | some summary =>
      have hfaithful := faithful_pruned ((Bool.not_eq_true _).mp hpinned) hn hsummary
      have hnext := hgood.projected runId "committed_tool_prune"
        (e := .toolPruned (uuids.hex drawn) [n.source] summary) rfl hfaithful
      dsimp only at h
      split_ifs at h
      · obtain ⟨rfl, rfl⟩ := Prod.mk.inj (Except.ok.inj h)
        exact ⟨_, hnext⟩
      · obtain ⟨⟨rest, drawn''⟩, hrest, h⟩ := bind_eq_ok_iff.mp h
        obtain ⟨rfl, rfl⟩ := Prod.mk.inj (Except.ok.inj h)
        obtain ⟨closed', hgood'⟩ := ih hnext hsane hrest
        rw [List.append_assoc] at hgood'
        exact ⟨_, hgood'⟩

theorem Good.pruneOldResults (hgood : Good tools uuids closed current s)
    (h : Context.pruneOldResults tools uuids sessionId s base runId readerAlias = .ok s') :
    ∃ closed current, Good tools uuids closed current s' := by
  rw [Context.pruneOldResults, hgood.serial.pending_eq] at h
  cases current with
  | some started =>
    obtain rfl := Except.ok.inj h
    exact ⟨_, _, hgood⟩
  | none =>
    obtain ⟨surface, hsurface, h⟩ := bind_eq_ok_iff.mp h
    obtain ⟨⟨entries, drawn⟩, hentries, h⟩ := bind_eq_ok_iff.mp h
    obtain rfl := Except.ok.inj h
    obtain ⟨nodes, hsurfaced, hnodes⟩ := hgood.snapshot base hsurface
    rw [hnodes] at hentries
    obtain ⟨closed', hgood'⟩ := hgood.pruneNodes (sane_pinLast hsurfaced.sane) hentries
    exact ⟨_, _, hgood'⟩

/-- The oldest image is one, of a node that is not pinned. -/
theorem oldestImages_one {selected : List (Node × List ℕ)} {indexes : List ℕ}
    (h : oldestImages 1 nodes = .ok selected) (hhead : selected.head? = some (n, indexes)) :
    n ∈ nodes ∧ n.pinned = false ∧ ∃ i, indexes = [i] := by
  induction nodes generalizing selected with
  | nil =>
    obtain rfl := Except.ok.inj h
    cases hhead
  | cons m nodes ih =>
    rw [oldestImages] at h
    split_ifs at h with hpinned
    · obtain ⟨hmem, hrest⟩ := ih h hhead
      exact ⟨List.mem_cons_of_mem _ hmem, hrest⟩
    obtain ⟨all, -, h⟩ := bind_eq_ok_iff.mp h
    obtain ⟨rest, hrest, h⟩ := bind_eq_ok_iff.mp h
    obtain rfl := Except.ok.inj h
    cases all with
    | nil =>
      obtain ⟨hmem, hfirst⟩ := ih hrest hhead
      exact ⟨List.mem_cons_of_mem _ hmem, hfirst⟩
    | cons i all =>
      obtain ⟨rfl, rfl⟩ := Prod.mk.inj (Option.some.inj hhead)
      exact ⟨List.mem_cons_self, (Bool.not_eq_true _).mp hpinned, i, rfl⟩

theorem Good.offloadOldestImage (hgood : Good tools uuids closed current s)
    (h : Context.offloadOldestImage tools uuids sessionId s base runId readerAlias = .ok s') :
    ∃ closed current, Good tools uuids closed current s' := by
  rw [Context.offloadOldestImage, hgood.serial.pending_eq] at h
  cases current with
  | some started => cases h
  | none =>
    obtain ⟨surface, hsurface, h⟩ := bind_eq_ok_iff.mp h
    obtain ⟨selected, hselected, h⟩ := bind_eq_ok_iff.mp h
    cases hhead : selected.head? with
    | none =>
      rw [hhead] at h
      obtain rfl := Except.ok.inj h
      exact ⟨_, _, hgood⟩
    | some p =>
      obtain ⟨n, indexes⟩ := p
      rw [hhead] at h
      obtain ⟨summary, hsummary, h⟩ := bind_eq_ok_iff.mp h
      obtain rfl := Except.ok.inj h
      obtain ⟨nodes, hsurfaced, hnodes⟩ := hgood.snapshot base hsurface
      obtain ⟨hmem, hpinned, i, rfl⟩ := oldestImages_one hselected hhead
      rw [hnodes] at hmem
      have hfaithful := faithful_offloaded hpinned (sane_pinLast hsurfaced.sane n hmem) hsummary
      exact ⟨_, _, hgood.projected _ "committed_image_offload" rfl hfaithful⟩

/-! ## Runs -/

theorem Good.after (hgood : Good tools uuids closed current s) (op : Op) :
    ∃ closed current, Good tools uuids closed current (s.after tools uuids sessionId op) := by
  unfold State.after
  dsimp only
  split
  · rename_i s' h
    cases op with
    | adopt base step =>
      obtain ⟨entries, hentries, rfl⟩ := map_eq_ok_iff.mp h
      exact hgood.adopt hentries
    | action base call =>
      obtain ⟨⟨s'', asked⟩, hasked, rfl⟩ := map_eq_ok_iff.mp h
      exact hgood.action hasked
    | pruneOldResults base runId readerAlias => exact hgood.pruneOldResults h
    | offloadOldestImage base runId readerAlias => exact hgood.offloadOldestImage h
  · exact ⟨_, _, hgood⟩

theorem Good.run (hgood : Good tools uuids closed current s) (ops : List Op) :
    ∃ closed current, Good tools uuids closed current (s.run tools uuids sessionId ops) := by
  induction ops generalizing closed current s with
  | nil => exact ⟨_, _, hgood⟩
  | cons op ops ih =>
    obtain ⟨closed', current', hgood'⟩ := hgood.after op
    exact ih hgood'

theorem good_run (tools : Tools) (uuids : Uuids) (sessionId : Str) (ops : List Op) :
    ∃ closed current, Good tools uuids closed current
      (State.initial.run tools uuids sessionId ops) :=
  Good.initial.run ops

end AI2Apps.Context
