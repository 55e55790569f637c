import AI2Apps.Context.Engine

/-!
# Results and images that are left out

`context_engine/pruning.py` and `context_engine/images.py`: a long tool result is projected
to its beginning and its end, an image to a text, and both name the transaction under which
the original can be read.  Only the content of the message changes.

* `Message.withContent`: a message with another content.
* `pruneToolResult`, `offloadImages`: the projections.
* `oldestImages`: the images that are left out first.
-/

namespace AI2Apps.Context

open Extensions (sortKeys)
open Json (lookup)

/-! ## Content -/

namespace Message

theorem plain_of_get {m : Message} {key : String} {v : Json} (h : m.get key = some v) :
    v.plain = true := by
  have hplain := m.plain
  rw [Json.plain, plainMembers_iff] at hplain
  exact hplain.2 _ (Json.mem_of_lookup h)

theorem nodup_keys (m : Message) : (Json.keys m.fields).Nodup := by
  have hplain := m.plain
  rw [Json.plain] at hplain
  exact Json.keys_nodup_of_plain hplain

/-- `body["content"] = content`. -/
def withContent (m : Message) (content : Json) (h : content.plain = true) : Message :=
  of (JsonText.setMember (str "content") content m.fields) (plain_setMember m.plain h)

theorem get_of (fields : Json.Object) (h : (Json.obj fields).plain = true) (key : String) :
    (of fields h).get key = (lookup (str key) fields).map sortKeys := by
  have hnodup : (Json.keys fields).Nodup := by
    rw [Json.plain] at h
    exact Json.keys_nodup_of_plain h
  rw [get, of, lookup_inOrder (by rwa [keys_sortMembers]), lookup_sortMembers]

theorem map_sortKeys_get (m : Message) (key : String) : (m.get key).map sortKeys = m.get key := by
  have h := m.sorted
  rw [sortKeys_obj, Json.obj.injEq] at h
  rw [get, ← lookup_sortMembers, ← lookup_inOrder (by rw [keys_sortMembers]; exact m.nodup_keys), h]

theorem get_content_withContent (m : Message) (content : Json) (h : content.plain = true) :
    (m.withContent content h).get "content" = some (sortKeys content) := by
  rw [withContent, get_of, JsonText.lookup_setMember_self, Option.map_some]

theorem get_withContent {m : Message} {content : Json} {h : content.plain = true} {key : String}
    (hkey : str "content" ≠ str key) : (m.withContent content h).get key = m.get key := by
  rw [withContent, get_of, JsonText.lookup_setMember_of_ne hkey]
  exact m.map_sortKeys_get key

@[simp] theorem role_withContent (m : Message) (content : Json) (h : content.plain = true) :
    (m.withContent content h).role = m.role := by
  rw [role, role, get_withContent (by decide)]

@[simp] theorem toolCalls_withContent (m : Message) (content : Json) (h : content.plain = true) :
    (m.withContent content h).toolCalls = m.toolCalls := by
  rw [toolCalls, toolCalls, get_withContent (by decide)]

end Message

/-- **Another content leaves the open calls as they were.** -/
theorem pairNode_withContent (pending : Finset Str) (m : Message) (content : Json)
    (h : content.plain = true) : pairNode pending (m.withContent content h) = pairNode pending m := by
  unfold pairNode openNode closeNode
  rw [m.toolCalls_withContent, m.role_withContent, Message.get_withContent (by decide)]

/-- `Node.message(node.id, body, pinned=node.pinned)`. -/
def Node.withMessage (n : Node) (message : Message) : Node := { n with message }

/-! ## References -/

/-- Where the original can be read. -/
structure Reference where
  transaction : Str
  tool : Str

def Reference.json (r : Reference) : Json :=
  .obj [(str "transaction", .str r.transaction), (str "tool", .str r.tool)]

/-! ## Tool results -/

def referenceType : Str := str "ai2apps.session-tool-reference/v1"

/-- What takes the place of a long result. -/
def resultReference (text sha256 : Str) (reference : Reference) : Json.Object := [
  (str "type", .str referenceType),
  (str "notice", .str (str ("Partial original tool result. Read omitted evidence before " ++
    "relying on it; tool completion is not task completion."))),
  (str "source", reference.json),
  (str "sha256", .str sha256),
  (str "total_characters", .int text.length),
  (str "head", .str (text.take 2048)),
  (str "tail", .str (text.drop (text.length - 1024))),
  (str "omitted_characters", .int (text.length - 3072))]

/-- The text is a reference itself. -/
def isReference (floats : FloatText) (text : Str) : Bool :=
  match JsonText.loads floats text with
  | some (.obj o) =>
    match lookup (str "type") o with
    | some (.str kind) => kind = referenceType
    | _ => false
  | _ => false

/-- `prune_tool_result`, with a threshold of 32768 bytes. -/
def pruneToolResult (tools : Tools) (node : Node) (reference : Reference) :
    Except Raised (Option Node) :=
  if node.message.role ≠ some (str "tool") then .ok none
  else
    match node.message.get "content" with
    | some (.str text) => do
      let size ← encodedLength text
      if size ≤ 32768 ∨ isReference tools.floats text then .ok none
      else do
        let sha256 ← tools.hexdigest text
        let message := node.message.withContent
          (.str (canonical tools.floats (.obj (resultReference text sha256 reference)))) rfl
        let pruned ← encodedLength (message.bodyJson tools.floats)
        let original ← encodedLength (node.message.bodyJson tools.floats)
        if original ≤ pruned then .ok none else .ok (some (node.withMessage message))
    | _ => .ok none

/-! ## Images -/

/-- The indexes of the image parts, from `i` on. -/
def imagesFrom (i : ℕ) : List Json → Except Raised (List ℕ)
  | [] => .ok []
  | .obj part :: parts => do
    let rest ← imagesFrom (i + 1) parts
    return if (lookup (str "type") part).bind Json.str? = some (str "image_url") then i :: rest
      else rest
  | _ :: _ => .error .attributeError

def imageIndexes (m : Message) : Except Raised (List ℕ) :=
  match m.get "role" with
  | some (.arr _) | some (.obj _) => .error .typeError
  | _ =>
    if m.role ≠ some (str "user") ∧ m.role ≠ some (str "tool") then .ok []
    else
      match m.get "content" with
      | some (.arr parts) => imagesFrom 0 parts
      | _ => .ok []

/-- What takes the place of an image. -/
def imageReference (index : ℕ) (sha256 : Str) (reference : Reference) : Json.Object := [
  (str "type", .str (str "ai2apps.image-offload/v1")),
  (str "notice", .str (str ("This original image is omitted from this request. Do not infer " ++
    "unseen image content."))),
  (str "source", reference.json),
  (str "part_index", .int index),
  (str "sha256", .str sha256)]

def textPart (text : Str) : Json := .obj [(str "type", .str (str "text")), (str "text", .str text)]

theorem plain_set {parts : List Json} (h : (Json.arr parts).plain = true) (i : ℕ) (text : Str) :
    (Json.arr (parts.set i (textPart text))).plain = true := by
  rw [Json.plain, plainItems_iff] at h ⊢
  intro v hv
  rcases List.mem_or_eq_of_mem_set hv with hv | rfl
  · exact h v hv
  · rfl

/-- The part of the content at the index becomes a text. -/
def Message.withPart (m : Message) (index : ℕ) (text : Str) : Message :=
  match h : m.get "content" with
  | some (.arr parts) => m.withContent (.arr (parts.set index (textPart text)))
      (plain_set (Message.plain_of_get h) index text)
  | _ => m

/-- The body of the loop. -/
def offloadPart (tools : Tools) (reference : Reference) (m : Message) (index : ℕ) :
    Except Raised Message :=
  match m.get "content" with
  | some (.arr parts) =>
    match parts[index]? with
    | some image => do
      let sha256 ← tools.hexdigest (canonical tools.floats image)
      return m.withPart index
        (canonical tools.floats (.obj (imageReference index sha256 reference)))
    | none => .error .indexError
  | _ => .error .typeError

def offloadImages (tools : Tools) (node : Node) (indexes : List ℕ) (reference : Reference) :
    Except Raised Node :=
  if indexes = [] ∨ ¬ indexes.Pairwise (· < ·) then
    .error (.valueError "Image indexes must be nonempty, unique and increasing")
  else do
    let eligible ← imageIndexes node.message
    if indexes.any fun i => i ∉ eligible then
      .error (.valueError "Image is missing, already offloaded, or not an input image")
    else do
      let message ← indexes.foldlM (offloadPart tools reference) node.message
      return node.withMessage message

/-- The loop of `oldest_images`. -/
def oldestImages : ℕ → List Node → Except Raised (List (Node × List ℕ))
  | 0, _ => .ok []
  | _ + 1, [] => .ok []
  | count + 1, n :: nodes =>
    if n.pinned then oldestImages (count + 1) nodes
    else do
      let indexes ← imageIndexes n.message
      let indexes := indexes.take (count + 1)
      let rest ← oldestImages (count + 1 - indexes.length) nodes
      return if indexes = [] then rest else (n, indexes) :: rest

end AI2Apps.Context
