import AI2Apps.Context.Operations

/-!
# What a session remembers

Whatever the operations of the runs of a session do, in any order and each on the records of
its own time, the surface that the journal makes of any records keeps the words of the user
and the order of calls and results, and the records can be read back from it: each derived
node names a transaction, and what the reader returns for it takes its place again.

* `journal_run`: the journal is one transaction after the other.
* `users_run`: the words of the user.
* `calls_run`: calls and results.
* `Restores`, `restores_run`: the way back.
-/

namespace AI2Apps.Context

open Extensions (sortKeys sortItems)
open Json (lookup)
open Relation (ReflTransGen)

variable {floats : FloatText}

/-! ## The journal -/

/-- **One transaction after the other**: each transaction starts once and takes something, and
replaces at most once, before its end, exactly what it took; `_pending` finds the open one,
and `source` finds what any of them took. -/
theorem journal_run (tools : Tools) (uuids : Uuids) (sessionId : Str) (ops : List Op) :
    let journal := (State.initial.run tools uuids sessionId ops).journal
    ∃ closed current, Serial closed current journal ∧
      ((closed ++ current.toList).map Started.transaction).Nodup ∧
      pending journal = current ∧
      ∀ s ∈ closed ++ current.toList, s.source ≠ [] ∧
        readSource tools.floats journal s.transaction = .ok (sourceText tools.floats s.source) := by
  intro journal
  obtain ⟨closed, current, hgood⟩ := good_run tools uuids sessionId ops
  exact ⟨closed, current, hgood.serial, hgood.serial.nodup, hgood.serial.pending_eq, fun s hs =>
    ⟨hgood.serial.source_ne_nil s hs, hgood.serial.readSource_eq tools.floats hs⟩⟩

/-- Transactions that are named by how many were drawn before. -/
def unaryUuids : Uuids where
  hex n := List.replicate n 97
  injective := List.replicate_left_injective 97

def plainTools : Tools := ⟨⟨fun _ => [], fun _ => .nan⟩, fun _ => [], fun _ => [], fun _ _ => 0⟩

/-- A message of the user with an image. -/
def imageMessage : Message :=
  .of [(str "role", .str (str "user")),
    (str "content", .arr [.obj [(str "type", .str (str "image_url"))]])] rfl

/-- The records of a session with two images. -/
def twoImages : Base where
  nodes := [⟨str "message:1", imageMessage, false⟩, ⟨str "message:2", imageMessage, false⟩]
  unpinned := by simp
  unique := by decide
  recorded := by decide

-- The first image is left out, and the second stays: it is in the newest message.
example :
    let run := State.initial.run plainTools unaryUuids (str "session")
      [.offloadOldestImage twoImages (str "run") (str "reader"),
        .offloadOldestImage twoImages (str "run") (str "reader")]
    (run.journal.length, run.drawn, (pending run.journal).isNone) = (3, 1, true) := by
  decide +kernel

/-! ## The surface -/

/-- **The words of the user are never lost**: the protected messages of any surface are those
of the user among its records, in their order, with images left out at most. -/
theorem users_run (tools : Tools) (uuids : Uuids) (sessionId : Str) (ops : List Op) (base : Base) :
    ∃ surface users, snapshot tools.floats sessionId
        (State.initial.run tools uuids sessionId ops).journal base = .ok surface ∧
      protectedUsers tools.floats surface.nodes = .ok users ∧
      Kept (userMessages base.nodes) users := by
  obtain ⟨closed, current, hgood⟩ := good_run tools uuids sessionId ops
  obtain ⟨surface, hsurface, -, hnodes⟩ := snapshot_eq_ok sessionId hgood.serial hgood.faithful base
  obtain ⟨users, husers, hkept⟩ := protectedUsers_replay hgood.faithful base
  refine ⟨surface, users, hsurface, ?_, hkept⟩
  rw [hnodes, protectedUsers_congr (map_pinLast Node.source fun _ => rfl)]
  exact husers

/-- **Calls and results stay paired**: the calls that are open after any surface are those that
are open after its records, so `balanced_cuts` passes it whenever it passes these. -/
theorem calls_run (tools : Tools) (uuids : Uuids) (sessionId : Str) (ops : List Op) (base : Base) :
    ∃ surface, snapshot tools.floats sessionId
        (State.initial.run tools uuids sessionId ops).journal base = .ok surface ∧
      (∀ p q, pendingAfter p base.nodes = .ok q → pendingAfter p surface.nodes = .ok q) ∧
      ∀ cuts, balancedCuts base.nodes = .ok cuts →
        ∃ cuts', balancedCuts surface.nodes = .ok cuts' ∧
          cutAt cuts' surface.nodes.length = cutAt cuts base.nodes.length := by
  obtain ⟨closed, current, hgood⟩ := good_run tools uuids sessionId ops
  obtain ⟨surface, hsurface, -, hnodes⟩ := snapshot_eq_ok sessionId hgood.serial hgood.faithful base
  have hopen : ∀ p q, pendingAfter p base.nodes = .ok q → pendingAfter p surface.nodes = .ok q := by
    intro p q h
    rw [hnodes, pendingAfter_congr (map_pinLast Node.message fun _ => rfl)]
    exact pendingAfter_replay hgood.faithful base h
  exact ⟨surface, hsurface, hopen, fun cuts hcuts => balancedCuts_congr (hopen ∅) hcuts⟩

/-! ## The way back -/

/-- The texts of nodes. -/
def textsOf (floats : FloatText) (nodes : List Node) : List (Str × Str) :=
  nodes.map fun n => n.source.texts floats

/-- The id and the text of a record that the reader returns. -/
def decodeItem (item : Json) : Option (Str × Str) := do
  let o ← item.obj?
  let id ← (lookup (str "id") o).bind Json.str?
  let body ← (lookup (str "body_json") o).bind Json.str?
  return (id, body)

/-- The ids and the texts in what the reader returns. -/
def decodeSource (floats : FloatText) (text : Str) : Option (List (Str × Str)) := do
  let items ← (JsonText.loads floats text).bind Json.arr?
  items.mapM decodeItem

/-- The transactions that the text of a message names. -/
def referencesIn (floats : FloatText) (text : Str) : List Str :=
  references floats (((JsonText.loads floats text).bind Json.obj?).bind (lookup (str "content")))

/-- A text names a transaction, and what the reader returns for it takes its place. -/
inductive Restores (floats : FloatText) (read : Str → Except Raised Str) :
    List (Str × Str) → List (Str × Str) → Prop
  | node (before after : List (Str × Str)) (id : Str) {items : List (Str × Str)}
      {text transaction answer : Str} :
      transaction ∈ referencesIn floats text → read transaction = .ok answer →
      decodeSource floats answer = some items →
      Restores floats read (before ++ [(id, text)] ++ after) (before ++ items ++ after)

theorem referencesIn_bodyJson (m : Message) :
    referencesIn floats (m.bodyJson floats) = references floats (m.get "content") := by
  rw [referencesIn, m.loads_bodyJson]
  rfl

theorem sortKeys_source (s : Source) : sortKeys (s.json floats) =
    .obj [(str "body_json", .str (s.message.bodyJson floats)), (str "id", .str s.id)] := by
  rw [Source.json, sortKeys_obj]
  rfl

theorem decodeItem_source (s : Source) :
    decodeItem (sortKeys (s.json floats)) = some (s.texts floats) := by
  rw [sortKeys_source]
  rfl

theorem mapM_decodeItem (source : List Source) :
    (source.map fun s => sortKeys (s.json floats)).mapM decodeItem =
      some (source.map (Source.texts floats)) := by
  induction source with
  | nil => rfl
  | cons s source ih =>
    rw [List.map_cons, List.mapM_cons, decodeItem_source, ih]
    rfl

/-- **What is read is what was taken**, text for text. -/
theorem decodeSource_sourceText (source : List Source) :
    decodeSource floats (sourceText floats source) = some (source.map (Source.texts floats)) := by
  have hplain : (Json.arr (source.map (Source.json floats))).plain = true := by
    rw [Json.plain, plainItems_iff]
    intro v hv
    obtain ⟨s, -, rfl⟩ := List.mem_map.mp hv
    rfl
  have hloads : JsonText.loads floats (sourceText floats source) =
      some (.arr (source.map fun s => sortKeys (s.json floats))) := by
    rw [sourceText, loads_canonical floats hplain, sortKeys, sortItems_eq_map, List.map_map]
    rfl
  rw [decodeSource, hloads]
  exact mapM_decodeItem source

theorem Serial.read_replacement {closed : List Started} {current : Option Started}
    {journal : List Entry} (h : Serial closed current journal) {r : Replacement}
    (hr : r ∈ replacements journal) :
    readSource floats journal r.transaction = .ok (sourceText floats r.source) := by
  have hmem := h.replacements_sublist.subset (List.mem_map_of_mem hr)
  obtain ⟨s, hs, heq⟩ := List.mem_map.mp hmem
  obtain ⟨htransaction, hsource⟩ := Prod.mk.inj heq
  rw [← htransaction, ← hsource]
  exact h.readSource_eq floats (List.mem_append_left _ hs)

/-- **The records can be read back** from any surface: node by node, what a derived node names
is read and takes its place, until the texts are those of the records. -/
theorem restores_run (tools : Tools) (uuids : Uuids) (sessionId : Str) (ops : List Op)
    (base : Base) :
    let journal := (State.initial.run tools uuids sessionId ops).journal
    ∃ surface, snapshot tools.floats sessionId journal base = .ok surface ∧
      ReflTransGen (Restores tools.floats (readSource tools.floats journal))
        (textsOf tools.floats surface.nodes) (textsOf tools.floats base.nodes) := by
  intro journal
  obtain ⟨closed, current, hgood⟩ := good_run tools uuids sessionId ops
  obtain ⟨surface, hsurface, -, hnodes⟩ := snapshot_eq_ok sessionId hgood.serial hgood.faithful base
  refine ⟨surface, hsurface, ?_⟩
  have hpinned : textsOf tools.floats surface.nodes =
      textsOf tools.floats (replay tools.floats journal base.nodes) := by
    rw [hnodes, textsOf, map_pinLast (fun n => n.source.texts tools.floats) fun _ => rfl]
    rfl
  rw [hpinned]
  refine (foldl_apply_induction (P := fun nodes => ReflTransGen
    (Restores tools.floats (readSource tools.floats journal)) (textsOf tools.floats nodes)
    (textsOf tools.floats base.nodes)) hgood.faithful base.unpinned
    (fun r hr before after h => ?_) .refl).2
  have hnamed := (hgood.faithful r hr).named
  rw [← referencesIn_bodyJson] at hnamed
  have hstep := Restores.node (textsOf tools.floats before) (textsOf tools.floats after)
    r.summary.id hnamed (hgood.serial.read_replacement hr) (decodeSource_sourceText r.source)
  have hpart : textsOf tools.floats r.part = r.source.map (Source.texts tools.floats) := by
    rw [textsOf, Replacement.part, List.map_map]
    rfl
  rw [← hpart] at hstep
  refine .head ?_ h
  simp only [textsOf, List.map_append, List.map_singleton] at hstep ⊢
  exact hstep

end AI2Apps.Context
