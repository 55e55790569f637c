import AI2Apps.Context.Replay
import Mathlib.Logic.Relation

/-!
# Derived nodes

What a memory node, a pruned result and a message without its image have in common with the
nodes they take the place of: the words of the user, the open calls, and the name of the
transaction under which the originals are read.

* `references`: the transactions a content names.
* `LeavesOut`: a message without one of its images.
* `Faithful`: a replacement that loses nothing of this.
* `faithful_memory`, `faithful_pruned`, `faithful_offloaded`: the three kinds are.
-/

namespace AI2Apps.Context

open Extensions (sortKeys sortMembers sortItems)
open Json (lookup keys)
open Relation (ReflTransGen)

variable {floats : FloatText} {tools : Tools} {n node : Node} {reference : Reference}

/-! ## References -/

/-- The transaction that a text names. -/
def transactionOf (floats : FloatText) (text : Str) : Option Str := do
  let value ← (JsonText.loads floats text).bind Json.obj?
  let source ← (lookup (str "source") value).bind Json.obj?
  (lookup (str "transaction") source).bind Json.str?

/-- The transactions that a content names: in its text, or in the texts of its parts. -/
def references (floats : FloatText) : Option Json → List Str
  | some (.str text) => (transactionOf floats text).toList
  | some (.arr parts) => parts.filterMap fun part =>
      (part.obj?.bind (lookup (str "text"))).bind fun v => v.str?.bind (transactionOf floats)
  | _ => []

theorem sortKeys_reference (reference : Reference) :
    sortKeys reference.json = .obj [(str "tool", .str reference.tool),
      (str "transaction", .str reference.transaction)] := by
  rw [Reference.json, sortKeys_obj]
  rfl

theorem lookup_sorted {members : Json.Object} (h : (Json.obj members).plain = true) (key : Str) :
    lookup key (inOrder (sortMembers members)) = (lookup key members).map sortKeys := by
  rw [Json.plain] at h
  rw [lookup_inOrder (by rw [keys_sortMembers]; exact Json.keys_nodup_of_plain h),
    lookup_sortMembers]

/-- A text that is written with a reference names its transaction. -/
theorem transactionOf_canonical {members : Json.Object} (h : (Json.obj members).plain = true)
    (hsource : lookup (str "source") members = some reference.json) :
    transactionOf floats (canonical floats (.obj members)) = some reference.transaction := by
  have hlookup := lookup_sorted h (str "source")
  rw [hsource, Option.map_some, sortKeys_reference] at hlookup
  rw [transactionOf, loads_canonical floats h, sortKeys_obj]
  dsimp only [bind, Option.bind, Json.obj?]
  rw [hlookup]
  rfl

/-! ## What is kept -/

/-- What is written and read again is the same. -/
structure Written (u : Json) : Prop where
  plain : u.plain = true
  sorted : sortKeys u = u

theorem Message.written (m : Message) : Written m.body := ⟨m.plain, m.sorted⟩

/-- The message without an image: its part is a text. -/
def LeavesOut (u u' : Json) : Prop :=
  ∃ (m : Message) (parts : List Json) (index : ℕ) (image : Json.Object) (text : Str),
    m.get "content" = some (.arr parts) ∧ parts[index]? = some (.obj image) ∧
      (lookup (str "type") image).bind Json.str? = some (str "image_url") ∧
      u = m.body ∧ u' = (m.withPart index text).body

/-- The same messages, each with images left out or none. -/
def Kept (users users' : List Json) : Prop := List.Forall₂ (ReflTransGen LeavesOut) users users'

theorem Kept.refl (users : List Json) : Kept users users :=
  List.forall₂_same.mpr fun _ _ => .refl

theorem Kept.append {users users' more more' : List Json} (h : Kept users users')
    (h' : Kept more more') : Kept (users ++ more) (users' ++ more') :=
  List.rel_append h h'

theorem Kept.trans {users users' users'' : List Json} (h : Kept users users')
    (h' : Kept users' users'') : Kept users users'' := by
  induction h generalizing users'' with
  | nil => exact h'
  | cons hu _ ih =>
    cases h' with
    | cons hu' h' => exact .cons (hu.trans hu') (ih h')

/-- A node whose words of the user can be carried over. -/
structure Sane (floats : FloatText) (n : Node) : Prop where
  users : ∃ users, usersOf floats n = .ok users ∧ ∀ u ∈ users, Written u
  role : isMemory n.id = true → n.message.role = some (str "assistant")

/-- A replacement that loses neither the words of the user nor the way back. -/
structure Faithful (floats : FloatText) (r : Replacement) : Prop where
  nonempty : r.source ≠ []
  unpinned : r.summary.pinned = false
  sane : Sane floats r.summary
  ident : r.summary.id = str "memory:" ++ r.transaction ∨ [r.summary.id] = r.source.map Source.id
  pairs : ∀ p q, pendingAfter p r.part = .ok q → pendingAfter p [r.summary] = .ok q
  users : ∃ users users', protectedUsers floats r.part = .ok users ∧
    usersOf floats r.summary = .ok users' ∧ Kept users users'
  named : r.transaction ∈ references floats (r.summary.message.get "content")

/-! ## Memory nodes -/

theorem plain_acceptable {v : Json} (h : acceptable v = true) : v.plain = true := by
  cases v with
  | arr items =>
    rw [acceptable, Bool.and_eq_true, List.all_eq_true] at h
    rw [Json.plain, plainItems_iff]
    intro item hitem
    have haccept := h.2 item hitem
    cases item with
    | str _ => rfl
    | _ => cases haccept
  | _ => cases h

/-- The arrays of an accepted summary are texts, and no key comes twice. -/
theorem plain_summary {output : Option Json} {summary : Json.Object}
    (h : summaryOf floats output = some summary) : (Json.obj summary).plain = true := by
  unfold summaryOf at h
  simp only [Option.bind_eq_bind, Option.bind_eq_some_iff] at h
  obtain ⟨_, -, _, -, _, -, _, -, content, -, _, -, _, -, value, ⟨v, hvalue, hobj⟩, h⟩ := h
  split_ifs at h with hall
  obtain rfl := Option.some.inj h
  cases v with
  | obj o =>
    obtain rfl := Option.some.inj hobj
    rw [Json.plain, plainMembers_iff]
    refine ⟨nodup_of_loads hvalue, fun p hp => plain_acceptable ?_⟩
    exact List.all_eq_true.mp hall.2.2.2.2.1 p hp
  | _ => cases hobj

theorem plain_memory (reference : Reference) {summary : Json.Object} {users : List Json}
    (hsummary : (Json.obj summary).plain = true) (husers : ∀ u ∈ users, Written u) :
    (Json.obj (memoryFields reference summary users)).plain = true := by
  have hitems : (Json.arr users).plain = true := by
    rw [Json.plain, plainItems_iff]
    exact fun u hu => (husers u hu).plain
  rw [Json.plain, plainMembers_iff]
  refine ⟨?_, ?_⟩
  · show ([str "type", str "notice", str "summary", str "protected_user_messages",
      str "source"] : List Str).Nodup
    decide
  · simp only [memoryFields, List.forall_mem_cons]
    exact ⟨rfl, rfl, hsummary, hitems, rfl, fun p hp => absurd hp List.not_mem_nil⟩

theorem isMemory_append (s : Str) : isMemory (str "memory:" ++ s) = true :=
  List.isPrefixOf_iff_prefix.mpr (List.prefix_append ..)

theorem role_assistant (content : Str) :
    (assistantMessage content).role = some (str "assistant") := by
  rw [assistantMessage, Message.role, Message.get_of]
  rfl

theorem content_assistant (content : Str) :
    (assistantMessage content).get "content" = some (.str content) := by
  rw [assistantMessage, Message.get_of]
  rfl

theorem toolCalls_assistant (content : Str) : (assistantMessage content).toolCalls = none := by
  rw [assistantMessage, Message.toolCalls, Message.get_of]
  rfl

theorem sortItems_of_written {users : List Json} (h : ∀ u ∈ users, Written u) :
    sortItems users = users := by
  rw [sortItems_eq_map]
  exact (List.map_congr_left fun u hu => (h u hu).sorted).trans (List.map_id users)

/-- **A memory node carries the messages it was given.** -/
theorem usersOf_memoryNode {summary : Json.Object} {users : List Json}
    (hsummary : (Json.obj summary).plain = true) (husers : ∀ u ∈ users, Written u) :
    usersOf floats (memoryNode floats reference summary users) = .ok users := by
  have hplain := plain_memory reference hsummary husers
  have hlookup := lookup_sorted hplain (str "protected_user_messages")
  have hmember : lookup (str "protected_user_messages") (memoryFields reference summary users) =
      some (.arr users) := rfl
  rw [hmember, Option.map_some, sortKeys, sortItems_of_written husers] at hlookup
  rw [usersOf, memoryNode, role_assistant, if_neg (by decide), if_pos (isMemory_append _),
    content_assistant]
  dsimp only
  rw [loads_canonical floats hplain, sortKeys_obj]
  dsimp only
  rw [hlookup]

theorem pairNode_assistant (p : Finset Str) (content : Str) :
    pairNode p (assistantMessage content) = .ok p := by
  have hopen : openNode p (assistantMessage content) = .ok p := by
    rw [openNode, toolCalls_assistant]
  have hclose : closeNode p (assistantMessage content) = .ok p := by
    rw [closeNode, role_assistant, if_neg (by decide)]
  exact bind_eq_ok_iff.mpr ⟨p, hopen, hclose⟩

/-- **A memory node is faithful** to a part that closes its own calls. -/
theorem faithful_memory (reference : Reference) {source : List Source}
    {summary : Json.Object} {users : List Json}
    (hsource : source ≠ []) (hpart : pendingAfter ∅ (source.map Source.node) = .ok ∅)
    (hprotected : protectedUsers floats (source.map Source.node) = .ok users)
    (hsummary : (Json.obj summary).plain = true) (husers : ∀ u ∈ users, Written u) :
    Faithful floats ⟨reference.transaction, source, memoryNode floats reference summary users⟩ where
  nonempty := hsource
  unpinned := rfl
  sane := ⟨⟨users, usersOf_memoryNode hsummary husers, husers⟩, fun _ => role_assistant _⟩
  ident := .inl rfl
  pairs := fun p q h => by
    obtain rfl := pendingAfter_of_closed hpart h
    rw [pendingAfter_singleton]
    exact pairNode_assistant _ _
  users := ⟨users, users, hprotected, usersOf_memoryNode hsummary husers, .refl users⟩
  named := by
    have htext : transactionOf floats
        (canonical floats (.obj (memoryFields reference summary users))) =
        some reference.transaction :=
      transactionOf_canonical (plain_memory reference hsummary husers) rfl
    show _ ∈ references floats ((assistantMessage _).get "content")
    rw [content_assistant, references, htext]
    exact List.mem_singleton_self _

/-! ## Projected messages -/

/-- The result of a tool has no words of the user. -/
theorem usersOf_tool (hid : isMemory n.id = true → n.message.role = some (str "assistant"))
    (hrole : n.message.role = some (str "tool")) : usersOf floats n = .ok [] := by
  have hmemory : ¬ isMemory n.id = true := by
    intro h
    have hassistant := hid h
    rw [hrole] at hassistant
    exact absurd hassistant (by decide)
  rw [usersOf, hrole, if_neg (by decide), if_neg hmemory]

theorem usersOf_user (hrole : n.message.role = some (str "user")) :
    usersOf floats n = .ok [n.message.body] := by
  rw [usersOf, if_pos hrole]

theorem part_singleton {transaction : Str} {summary : Node} (hpinned : n.pinned = false) :
    (Replacement.mk transaction [n.source] summary).part = [n] :=
  congrArg (fun m => [m]) (node_source hpinned)

/-- A message of the user or a tool with another content is faithful, when the content names
the transaction and the words of the user are kept. -/
theorem faithful_withContent {content : Json} {hcontent : content.plain = true}
    (hpinned : n.pinned = false) (hsane : Sane floats n)
    (hrole : n.message.role = some (str "tool") ∨ n.message.role = some (str "user") ∧
      LeavesOut n.message.body (n.message.withContent content hcontent).body)
    (hnamed : reference.transaction ∈ references floats (some (sortKeys content))) :
    Faithful floats ⟨reference.transaction, [n.source],
      n.withMessage (n.message.withContent content hcontent)⟩ := by
  have hid : isMemory n.id = true →
      (n.withMessage (n.message.withContent content hcontent)).message.role =
        some (str "assistant") := by
    intro h
    rw [Node.withMessage, Message.role_withContent]
    exact hsane.role h
  have husers : ∃ users users', usersOf floats n = .ok users ∧
      usersOf floats (n.withMessage (n.message.withContent content hcontent)) = .ok users' ∧
        Kept users users' ∧ ∀ u ∈ users', Written u := by
    rcases hrole with hrole | ⟨hrole, hleaves⟩
    · refine ⟨[], [], usersOf_tool hsane.role hrole, usersOf_tool hid ?_, .refl [],
        fun u hu => absurd hu List.not_mem_nil⟩
      rw [Node.withMessage, Message.role_withContent, hrole]
    · refine ⟨_, _, usersOf_user hrole, usersOf_user ?_, .cons (.single hleaves) .nil, ?_⟩
      · rw [Node.withMessage, Message.role_withContent, hrole]
      · exact List.forall_mem_singleton.mpr (Message.written _)
  obtain ⟨users, users', hown, hown', hkept, hwritten⟩ := husers
  exact {
    nonempty := List.cons_ne_nil _ _
    unpinned := hpinned
    sane := ⟨⟨users', hown', hwritten⟩, hid⟩
    ident := .inr rfl
    pairs := fun p q h => by
      rw [part_singleton hpinned, pendingAfter_singleton] at h
      rw [pendingAfter_singleton, Node.withMessage, pairNode_withContent]
      exact h
    users := ⟨users, users', by rw [part_singleton hpinned]; exact protectedUsers_singleton hown,
      hown', hkept⟩
    named := by
      rw [Node.withMessage, Message.get_content_withContent]
      exact hnamed }

/-! ## Pruned results -/

theorem pruneToolResult_eq_some {summary : Node}
    (h : pruneToolResult tools node reference = .ok (some summary)) :
    ∃ text sha256, node.message.role = some (str "tool") ∧
      summary = node.withMessage (node.message.withContent
        (.str (canonical tools.floats (.obj (resultReference text sha256 reference)))) rfl) := by
  unfold pruneToolResult at h
  split_ifs at h with hrole
  · cases Except.ok.inj h
  · split at h
    · rename_i text _
      obtain ⟨size, -, h⟩ := bind_eq_ok_iff.mp h
      split_ifs at h
      · cases Except.ok.inj h
      · obtain ⟨sha256, -, h⟩ := bind_eq_ok_iff.mp h
        obtain ⟨pruned, -, h⟩ := bind_eq_ok_iff.mp h
        obtain ⟨original, -, h⟩ := bind_eq_ok_iff.mp h
        split_ifs at h
        · cases Except.ok.inj h
        · exact ⟨text, sha256, not_not.mp hrole, (Option.some.inj (Except.ok.inj h)).symm⟩
    · cases Except.ok.inj h

theorem transactionOf_result (text sha256 : Str) :
    transactionOf floats (canonical floats (.obj (resultReference text sha256 reference))) =
      some reference.transaction :=
  transactionOf_canonical (by rfl) rfl

theorem faithful_pruned {summary : Node} (hpinned : n.pinned = false)
    (hsane : Sane tools.floats n) (h : pruneToolResult tools n reference = .ok (some summary)) :
    Faithful tools.floats ⟨reference.transaction, [n.source], summary⟩ := by
  obtain ⟨text, sha256, hrole, rfl⟩ := pruneToolResult_eq_some h
  refine faithful_withContent hpinned hsane (.inl hrole) ?_
  show _ ∈ references tools.floats (some (.str _))
  rw [references, transactionOf_result]
  exact List.mem_singleton_self _

/-! ## Images -/

theorem mem_imagesFrom {k i : ℕ} {parts : List Json} {indexes : List ℕ}
    (h : imagesFrom k parts = .ok indexes) (hi : i ∈ indexes) :
    ∃ image, k ≤ i ∧ parts[i - k]? = some (.obj image) ∧
      (lookup (str "type") image).bind Json.str? = some (str "image_url") := by
  induction parts generalizing k indexes with
  | nil =>
    obtain rfl := Except.ok.inj h
    exact absurd hi List.not_mem_nil
  | cons part parts ih =>
    cases part with
    | obj part =>
      obtain ⟨rest, hrest, h⟩ := bind_eq_ok_iff.mp h
      obtain rfl := Except.ok.inj h
      have hlater : i ∈ rest → ∃ image, k ≤ i ∧ (Json.obj part :: parts)[i - k]? =
          some (.obj image) ∧
            (lookup (str "type") image).bind Json.str? = some (str "image_url") := by
        intro hi
        obtain ⟨image, hle, hget, htype⟩ := ih hrest hi
        refine ⟨image, by omega, ?_, htype⟩
        rw [show i - k = i - (k + 1) + 1 by omega, List.getElem?_cons_succ]
        exact hget
      split_ifs at hi with htype
      · rcases List.mem_cons.mp hi with rfl | hi
        · refine ⟨part, le_rfl, ?_, htype⟩
          rw [Nat.sub_self]
          rfl
        · exact hlater hi
      · exact hlater hi
    | _ => cases h

/-- An index that is eligible is that of an image in a message of the user or a tool. -/
theorem mem_imageIndexes {m : Message} {indexes : List ℕ} {i : ℕ}
    (h : imageIndexes m = .ok indexes) (hi : i ∈ indexes) :
    ∃ parts image, (m.role = some (str "tool") ∨ m.role = some (str "user")) ∧
      m.get "content" = some (.arr parts) ∧ parts[i]? = some (.obj image) ∧
        (lookup (str "type") image).bind Json.str? = some (str "image_url") := by
  have hnil : ∀ {l : List ℕ}, Except.ok (ε := Raised) [] = .ok l → i ∉ l := by
    intro l hl
    obtain rfl := Except.ok.inj hl
    exact List.not_mem_nil
  unfold imageIndexes at h
  split at h
  · cases h
  · cases h
  · split_ifs at h with hrole
    · exact absurd hi (hnil h)
    · split at h
      · rename_i parts hget
        obtain ⟨image, -, himage, htype⟩ := mem_imagesFrom h hi
        refine ⟨parts, image, ?_, hget, himage, htype⟩
        rw [not_and_or, not_not, not_not] at hrole
        exact hrole.symm
      · exact absurd hi (hnil h)

theorem withPart_eq {m : Message} {parts : List Json} (h : m.get "content" = some (.arr parts))
    (index : ℕ) (text : Str) : m.withPart index text =
      m.withContent (.arr (parts.set index (textPart text)))
        (plain_set (Message.plain_of_get h) index text) := by
  unfold Message.withPart
  split
  · rename_i parts' h'
    obtain rfl := Json.arr.inj (Option.some.inj (h.symm.trans h'))
    rfl
  · rename_i hne
    exact absurd h (hne parts)

theorem offloadImages_eq_ok {index : ℕ} {summary : Node}
    (h : offloadImages tools node [index] reference = .ok summary) :
    ∃ parts image sha256,
      (node.message.role = some (str "tool") ∨ node.message.role = some (str "user")) ∧
        node.message.get "content" = some (.arr parts) ∧ parts[index]? = some (.obj image) ∧
        (lookup (str "type") image).bind Json.str? = some (str "image_url") ∧
        summary = node.withMessage (node.message.withPart index
          (canonical tools.floats (.obj (imageReference index sha256 reference)))) := by
  have hindexes : ¬ ([index] = [] ∨ ¬ [index].Pairwise (· < ·)) := by simp
  rw [offloadImages, if_neg hindexes] at h
  obtain ⟨eligible, heligible, h⟩ := bind_eq_ok_iff.mp h
  split_ifs at h with hany
  obtain ⟨message, hmessage, h⟩ := bind_eq_ok_iff.mp h
  obtain rfl := Except.ok.inj h
  have hmem : index ∈ eligible := by simpa using hany
  obtain ⟨parts, image, hrole, hget, himage, htype⟩ := mem_imageIndexes heligible hmem
  rw [List.foldlM_cons] at hmessage
  obtain ⟨m, hpart, hmessage⟩ := bind_eq_ok_iff.mp hmessage
  obtain rfl := Except.ok.inj hmessage
  rw [offloadPart, hget] at hpart
  dsimp only at hpart
  rw [himage] at hpart
  obtain ⟨sha256, -, hpart⟩ := bind_eq_ok_iff.mp hpart
  obtain rfl := Except.ok.inj hpart
  exact ⟨parts, image, sha256, hrole, hget, himage, htype, rfl⟩

theorem transactionOf_image (floats : FloatText) (reference : Reference) (index : ℕ)
    (sha256 : Str) :
    transactionOf floats (canonical floats (.obj (imageReference index sha256 reference))) =
      some reference.transaction :=
  transactionOf_canonical (by rfl) rfl

theorem sortKeys_textPart (text : Str) : sortKeys (textPart text) =
    .obj [(str "text", .str text), (str "type", .str (str "text"))] := by
  rw [textPart, sortKeys_obj]
  rfl

theorem faithful_offloaded {index : ℕ} {summary : Node} (hpinned : n.pinned = false)
    (hsane : Sane tools.floats n) (h : offloadImages tools n [index] reference = .ok summary) :
    Faithful tools.floats ⟨reference.transaction, [n.source], summary⟩ := by
  obtain ⟨parts, image, sha256, hrole, hget, himage, htype, rfl⟩ := offloadImages_eq_ok h
  have hnamed := transactionOf_image tools.floats reference index sha256
  generalize canonical tools.floats (.obj (imageReference index sha256 reference)) = text at hnamed ⊢
  have hleaves : LeavesOut n.message.body (n.message.withPart index text).body :=
    ⟨n.message, parts, index, image, text, hget, himage, htype, rfl, rfl⟩
  have hmem : textPart text ∈ parts.set index (textPart text) :=
    List.mem_set (List.getElem?_eq_some_iff.mp himage).1 _
  rw [withPart_eq hget] at hleaves ⊢
  refine faithful_withContent hpinned hsane (hrole.imp_right fun hrole => ⟨hrole, hleaves⟩) ?_
  rw [sortKeys, sortItems_eq_map, references, List.mem_filterMap]
  refine ⟨_, List.mem_map_of_mem hmem, ?_⟩
  rw [sortKeys_textPart]
  exact hnamed

end AI2Apps.Context
