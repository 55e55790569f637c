import AI2Apps.Context.Pairing
import AI2Apps.Context.SessionMemory

/-!
# Replacements, one after the other

A replacing event acts where the surface still holds what it replaces, text for text, and
then a part of the surface becomes one node.  What such a step keeps, the replay of a whole
journal keeps.

* `Source.texts_injective`: the texts of a source name its messages.
* `Replacement.apply_cases`: what a replacing event does.
* `protectedUsers_append`: the words of the user, part by part.
-/

namespace AI2Apps.Context

open Extensions (sortKeys)

variable {floats : FloatText} {nodes more : List Node} {r : Replacement}

/-! ## Texts of messages -/

theorem Message.ext_body {m m' : Message} (h : m.body = m'.body) : m = m' := by
  cases m
  cases m'
  rw [Message.body, Message.body, Json.obj.injEq] at h
  cases h
  rfl

theorem Message.bodyJson_injective (floats : FloatText) :
    Function.Injective (Message.bodyJson floats) :=
  fun m m' h => Message.ext_body (JsonText.dumps_injOn floats m.plain m'.plain h)

/-- **The text of a message is read back as its body.** -/
theorem Message.loads_bodyJson (floats : FloatText) (m : Message) :
    JsonText.loads floats (m.bodyJson floats) = some m.body :=
  JsonText.loads_dumps floats m.plain

theorem Source.texts_injective (floats : FloatText) : Function.Injective (Source.texts floats) := by
  rintro ⟨id, m⟩ ⟨id', m'⟩ h
  obtain ⟨rfl, hm⟩ := Prod.mk.inj h
  obtain rfl := Message.bodyJson_injective floats hm
  rfl

/-- The node of a source. -/
def Source.node (s : Source) : Node := ⟨s.id, s.message, false⟩

theorem node_source {n : Node} (h : n.pinned = false) : n.source.node = n := by
  rw [Node.source, Source.node, ← h]

theorem map_node_source (h : ∀ n ∈ nodes, n.pinned = false) :
    (nodes.map Node.source).map Source.node = nodes := by
  rw [List.map_map]
  exact (List.map_congr_left fun n hn => node_source (h n hn)).trans (List.map_id nodes)

/-- Nodes that are not pinned and have the texts of a source are its nodes. -/
theorem eq_map_node {source : List Source} (h : ∀ n ∈ nodes, n.pinned = false)
    (htexts : nodes.map (fun n => n.source.texts floats) = source.map (Source.texts floats)) :
    nodes = source.map Source.node := by
  have hsource : (nodes.map Node.source).map (Source.texts floats) =
      source.map (Source.texts floats) := by
    rw [List.map_map]
    exact htexts
  rw [← List.map_injective_iff.mpr (Source.texts_injective floats) hsource, map_node_source h]

/-! ## One replacement -/

/-- The nodes that are replaced. -/
def Replacement.part (r : Replacement) : List Node := r.source.map Source.node

/-- **A replacing event replaces its part, or nothing.** -/
theorem Replacement.apply_cases (floats : FloatText) (r : Replacement)
    (h : ∀ n ∈ nodes, n.pinned = false) :
    r.apply floats nodes = nodes ∨ ∃ before after, nodes = before ++ r.part ++ after ∧
      r.apply floats nodes = before ++ [r.summary] ++ after := by
  unfold Replacement.apply
  split
  · exact .inl rfl
  · split
    · exact .inl rfl
    · rename_i start _
      dsimp only
      split_ifs with htexts
      · refine .inr ⟨nodes.take start, nodes.drop (start + r.source.length), ?_, ?_⟩
        · have hpart := eq_map_node
            (fun n hn => h n (List.mem_of_mem_take (List.mem_of_mem_drop hn))) htexts
          rw [Replacement.part, ← hpart, take_append_drop_take _ (Nat.le_add_right ..),
            List.take_append_drop]
        · rw [List.append_assoc, List.singleton_append]
      · exact .inl rfl

/-! ## The newest node -/

theorem map_pinLast {β : Type} (f : Node → β) (hf : ∀ n : Node, f { n with pinned := true } = f n) :
    (pinLast nodes).map f = nodes.map f := by
  induction nodes with
  | nil => rfl
  | cons n nodes ih =>
    cases nodes with
    | nil =>
      rw [pinLast, List.map_singleton, List.map_singleton, hf]
    | cons m nodes =>
      rw [pinLast, List.map_cons, ih]
      rfl

theorem pendingAfter_congr {p : Finset Str} (h : nodes.map Node.message = more.map Node.message) :
    pendingAfter p nodes = pendingAfter p more := by
  induction nodes generalizing more p with
  | nil =>
    rw [List.map_eq_nil_iff.mp h.symm]
  | cons n nodes ih =>
    obtain ⟨m, more', rfl, hm, hmore⟩ := List.map_eq_cons_iff.mp h.symm
    rw [pendingAfter, pendingAfter, hm]
    exact congrArg _ (funext fun q => ih hmore.symm)

theorem usersOf_congr {n m : Node} (h : n.source = m.source) : usersOf floats n = usersOf floats m := by
  obtain ⟨hid, hm⟩ := Source.mk.inj h
  unfold usersOf
  rw [hid, hm]

theorem protectedUsers_congr (h : nodes.map Node.source = more.map Node.source) :
    protectedUsers floats nodes = protectedUsers floats more := by
  induction nodes generalizing more with
  | nil =>
    rw [List.map_eq_nil_iff.mp h.symm]
  | cons n nodes ih =>
    obtain ⟨m, more', rfl, hm, hmore⟩ := List.map_eq_cons_iff.mp h.symm
    rw [protectedUsers, protectedUsers, usersOf_congr hm, ih hmore.symm]

/-! ## The words of the user -/

theorem protectedUsers_append {users users' : List Json} (h : protectedUsers floats nodes = .ok users)
    (h' : protectedUsers floats more = .ok users') :
    protectedUsers floats (nodes ++ more) = .ok (users ++ users') := by
  induction nodes generalizing users with
  | nil =>
    obtain rfl := Except.ok.inj h
    exact h'
  | cons n nodes ih =>
    rw [protectedUsers] at h
    obtain ⟨own, hown, h⟩ := bind_eq_ok_iff.mp h
    obtain ⟨rest, hrest, h⟩ := bind_eq_ok_iff.mp h
    obtain rfl := Except.ok.inj h
    rw [List.cons_append, protectedUsers, List.append_assoc]
    exact bind_eq_ok_iff.mpr ⟨own, hown, bind_eq_ok_iff.mpr ⟨_, ih hrest, rfl⟩⟩

theorem protectedUsers_of_append {users : List Json}
    (h : protectedUsers floats (nodes ++ more) = .ok users) :
    ∃ left right, protectedUsers floats nodes = .ok left ∧
      protectedUsers floats more = .ok right ∧ users = left ++ right := by
  induction nodes generalizing users with
  | nil => exact ⟨[], users, rfl, h, rfl⟩
  | cons n nodes ih =>
    rw [List.cons_append, protectedUsers] at h
    obtain ⟨own, hown, h⟩ := bind_eq_ok_iff.mp h
    obtain ⟨rest, hrest, h⟩ := bind_eq_ok_iff.mp h
    obtain rfl := Except.ok.inj h
    obtain ⟨left, right, hleft, hright, rfl⟩ := ih hrest
    refine ⟨own ++ left, right, ?_, hright, (List.append_assoc ..).symm⟩
    exact bind_eq_ok_iff.mpr ⟨own, hown, bind_eq_ok_iff.mpr ⟨_, hleft, rfl⟩⟩

theorem protectedUsers_singleton {n : Node} {users : List Json} (h : usersOf floats n = .ok users) :
    protectedUsers floats [n] = .ok users := by
  rw [protectedUsers, h]
  exact congrArg Except.ok (List.append_nil users)

end AI2Apps.Context
