import AI2Apps.Core.Clock
import AI2Apps.Lib.Faults
import AI2Apps.Lib.Tables
import Mathlib.Data.List.Sort

/-!
# The Knowledge authority

`knowledge/store.py`: the items, their text and chunks, the buckets they are in and
the change log that derived indexes replay.  Each function is one write transaction;
a call that makes several (`create_text_item` first ensures the spaces and the
system buckets) is several operations here, since other calls may come in between.
An item is joined with its one representation.  Facets, tags, assets and the
lexical index are left out: no vector record is made from them.

* `Store`, `Tx`: the tables, and the programs on them.
* `createTextItem`, `updateTextItem`, `deleteItem`.
* `ensureSystemBuckets`, `createBucket`, `deleteBucket`, `addItemToBucket`,
  `removeItemFromBucket`.
-/

namespace AI2Apps.Knowledge

open Clock Faults
open TextOrder (strip)

inductive MemberRole where
  | core
  | owner
  | admin
  | developer
  | member
  | child
  | guest
  deriving DecidableEq

structure RequestPrincipal where
  actorUserId : Str
  installationId : Str
  role : MemberRole

inductive KnowledgeScope where
  | personal
  | installation
  deriving DecidableEq

def KnowledgeScope.value : KnowledgeScope → Str
  | .personal => str "private"
  | .installation => str "installation"

inductive ItemKind where
  | webpage
  | document
  | image
  | audio
  | video
  | chat
  | artifact
  | note
  deriving DecidableEq

inductive ItemStatus where
  | pending
  | ready
  | incomplete
  | failed
  | deleted
  deriving DecidableEq

inductive BucketKind where
  | system
  | custom
  | imported
  deriving DecidableEq

inductive SystemKey where
  | inbox
  | web
  | documents
  | chats
  | shared
  deriving DecidableEq

/-! ## Rows -/

/-- An item, joined with its representation of ordinal 0. -/
structure Item where
  id : Str
  spaceId : Str
  installationId : Str
  ownerUserId : Str
  createdByUserId : Str
  visibility : KnowledgeScope
  kind : ItemKind
  title : Str
  sourceAppId : Option Str
  status : ItemStatus
  revision : ℤ
  createdAt : DateTime
  updatedAt : DateTime
  deletedAt : Option DateTime
  text : Str

structure Chunk where
  itemId : Str
  spaceId : Str
  ordinal : ℕ
  text : Str

structure Bucket where
  id : Str
  installationId : Str
  ownerUserId : Option Str
  createdByUserId : Str
  visibility : KnowledgeScope
  name : Str
  kind : BucketKind
  systemKey : Option SystemKey

structure BucketItem where
  bucketId : Str
  itemId : Str
  position : ℕ

inductive Operation where
  | create
  | update
  | delete
  deriving DecidableEq

/-- An entry of the change log. The log is append-only and numbered from one, so the
sequence number of an entry is its place. -/
structure Change where
  operation : Operation
  itemId : Str
  spaceId : Str
  authoritativeRevision : ℤ

/-- `UNIQUE(representation_id, ordinal)`. -/
def Chunk.key (chunk : Chunk) : Str × ℕ := (chunk.itemId, chunk.ordinal)

/-- `PRIMARY KEY(bucket_id, item_id)`. -/
def BucketItem.key (row : BucketItem) : Str × Str := (row.bucketId, row.itemId)

structure Store where
  items : Table Item Item.id
  chunks : Table Chunk Chunk.key
  buckets : Table Bucket Bucket.id
  bucketItems : Table BucketItem BucketItem.key
  changeLog : List Change

inductive Error where
  | value (message : Str)
  | access (message : Str)
  | notFound (message : Str)
  | conflict (message : Str)
  | integrity (constraint : Str)
  | key (key : SystemKey)
  deriving DecidableEq

/-- A program on the tables that may raise. -/
abbrev Tx (α : Type) := EStateM Error Store α

/-! ## What a principal sees -/

/-- `_VISIBLE_ITEM_SELECT`. -/
def visibleItem (principal : RequestPrincipal) (item : Item) : Bool :=
  item.installationId = principal.installationId && item.deletedAt.isNone &&
    (item.ownerUserId = principal.actorUserId || item.visibility = .installation)

def visibleBucket (principal : RequestPrincipal) (bucket : Bucket) : Bool :=
  bucket.installationId = principal.installationId &&
    (bucket.visibility = .installation || bucket.ownerUserId = some principal.actorUserId)

def Store.visibleItem? (store : Store) (principal : RequestPrincipal) (itemId : Str) : Option Item :=
  (store.items.get? itemId).filter (visibleItem principal)

/-- `_visible_bucket_row`. -/
def visibleBucketRow (principal : RequestPrincipal) (bucketId : Str) : Tx Bucket := do
  let store ← get
  orThrow (.notFound (str "knowledge bucket not found"))
    ((store.buckets.get? bucketId).filter (visibleBucket principal))

/-! ## Writes -/

def appendChange (change : Change) : Tx Unit :=
  modify fun store => { store with changeLog := store.changeLog ++ [change] }

/-- `SELECT COALESCE(MAX(position),-1)+1`. -/
def Store.nextPosition (store : Store) (bucketId : Str) : ℕ :=
  ((store.bucketItems.rows.filter fun row => row.bucketId = bucketId).map fun row =>
    row.position + 1).foldl max 0

/-- The trigger `knowledge_bucket_item_scope_insert`. -/
def scopesAgree (bucket : Bucket) (item : Item) : Bool :=
  bucket.installationId = item.installationId && bucket.visibility = item.visibility &&
    (bucket.visibility = .installation || bucket.ownerUserId = some item.ownerUserId)

/-- The row is new and its bucket and item have the same scope. -/
def Store.acceptsBucketItem (store : Store) (row : BucketItem) : Bool :=
  ((store.buckets.get? row.bucketId).any fun bucket =>
    (store.items.get? row.itemId).any fun item => scopesAgree bucket item)

/-- `INSERT INTO knowledge_bucket_items ... ON CONFLICT DO NOTHING`: whether the row was new. -/
def insertBucketItem (row : BucketItem) : Tx Bool := do
  let store ← get
  if !store.acceptsBucketItem row then
    throw (.integrity (str "knowledge bucket and item scopes differ"))
  else
    match store.bucketItems.insert? row with
    | none => return false
    | some bucketItems =>
      set { store with bucketItems := bucketItems }
      return true

/-- `DELETE FROM knowledge_buckets WHERE id = ?`: the rows of the bucket go with it. -/
def Store.dropBucket (store : Store) (bucketId : Str) : Store :=
  { store with
    buckets := store.buckets.delete fun b => b.id = bucketId
    bucketItems := store.bucketItems.delete fun row => row.bucketId = bucketId }

/-! ## System buckets -/

def systemBuckets : List (SystemKey × String × KnowledgeScope) := [
  (.inbox, "Inbox", .personal),
  (.web, "Web", .personal),
  (.documents, "Documents", .personal),
  (.chats, "Chats", .personal),
  (.shared, "Local Shared", .installation)]

/-- `_default_bucket_key`. -/
def defaultBucketKey : ItemKind → SystemKey
  | .webpage => .web
  | .chat => .chats
  | .document | .image | .audio | .video | .artifact => .documents
  | .note => .inbox

/-- The id of a system bucket: a name-based UUID of the installation, the owner and the key. -/
abbrev BucketIds := Str → Option Str → SystemKey → Str

/-- A system bucket of the principal, unless there is one (`ON CONFLICT DO NOTHING`). -/
def ensureSystemBucket (bucketIds : BucketIds) (principal : RequestPrincipal)
    (entry : SystemKey × String × KnowledgeScope) : Tx Unit := do
  let store ← get
  let owner := if entry.2.2 = .personal then some principal.actorUserId else none
  let bucket : Bucket := {
    id := bucketIds principal.installationId owner entry.1
    installationId := principal.installationId, ownerUserId := owner
    createdByUserId := principal.actorUserId, visibility := entry.2.2, name := str entry.2.1
    kind := .system, systemKey := some entry.1 }
  if store.buckets.rows.any fun b => b.installationId = bucket.installationId &&
      b.visibility = bucket.visibility && b.ownerUserId = bucket.ownerUserId &&
      b.systemKey = bucket.systemKey then
    pure ()
  else
    modify fun store => { store with
      buckets := (store.buckets.insert? bucket).getD store.buckets }

/-- Items that no bucket holds, the oldest first. -/
def Store.legacyItems (store : Store) (principal : RequestPrincipal) : List Item :=
  (store.items.rows.filter fun item => visibleItem principal item &&
      !store.bucketItems.rows.any fun row => row.itemId = item.id).insertionSort fun a b =>
    a.createdAt.micros < b.createdAt.micros ∨ a.createdAt.micros = b.createdAt.micros ∧ a.id ≤ b.id

/-- The system bucket an item belongs in. -/
def legacyKey (item : Item) : SystemKey :=
  if item.visibility = .installation then .shared else defaultBucketKey item.kind

/-- `default_ids[key]`: the last row with the key. -/
def Store.defaultId? (store : Store) (principal : RequestPrincipal) (key : SystemKey) : Option Str :=
  ((store.buckets.rows.filter fun b => visibleBucket principal b && b.kind = .system &&
    b.systemKey = some key).getLast?).map Bucket.id

/-- An item without a bucket gets the default one. -/
def placeLegacyItem (principal : RequestPrincipal) (entry : Item × ℕ) : Tx Unit := do
  let store ← get
  let bucketId ← orThrow (.key (legacyKey entry.1))
    (store.defaultId? principal (legacyKey entry.1))
  let _ ← insertBucketItem ⟨bucketId, entry.1.id, entry.2⟩

/-- `ensure_system_buckets`: K1 data may predate buckets. -/
def ensureSystemBuckets (bucketIds : BucketIds) (principal : RequestPrincipal) : Tx Unit :=
  transaction do
    forM systemBuckets (ensureSystemBucket bucketIds principal)
    let store ← get
    forM (store.legacyItems principal).zipIdx (placeLegacyItem principal)

/-! ## Buckets -/

/-- `create_bucket`, after the system buckets are there. -/
def createBucket (principal : RequestPrincipal) (bucketId name : Str) (scope : KnowledgeScope)
    (isImported : Bool) : Tx Bucket := transaction do
  let name := strip name
  if name = [] || 200 < name.length then
    throw (.value (str "bucket name must contain between 1 and 200 characters"))
  else
    let store ← get
    let bucket : Bucket := {
      id := bucketId, installationId := principal.installationId
      ownerUserId := if scope = .personal then some principal.actorUserId else none
      createdByUserId := principal.actorUserId, visibility := scope, name := name
      kind := if isImported then .imported else .custom, systemKey := none }
    let buckets ← orThrow (.integrity (str "knowledge_buckets.id")) (store.buckets.insert? bucket)
    set { store with buckets := buckets }
    visibleBucketRow principal bucketId

/-- `delete_bucket`. -/
def deleteBucket (principal : RequestPrincipal) (bucketId : Str) : Tx Unit := transaction do
  let bucket ← visibleBucketRow principal bucketId
  if bucket.kind = .system then
    throw (.conflict (str "system knowledge buckets cannot be deleted"))
  else if bucket.createdByUserId ≠ principal.actorUserId then
    throw (.notFound (str "knowledge bucket not found"))
  else modify fun store => store.dropBucket bucketId

/-- `add_item_to_bucket`. -/
def addItemToBucket (principal : RequestPrincipal) (bucketId itemId : Str) : Tx Unit :=
  transaction do
    let bucket ← visibleBucketRow principal bucketId
    let store ← get
    let item ← orThrow (.notFound (str "knowledge item not found"))
      (store.visibleItem? principal itemId)
    if bucket.visibility ≠ item.visibility then
      throw (.conflict
        (str "copying between Private and Local shared requires explicit sharing"))
    else
      let inserted ← insertBucketItem ⟨bucketId, itemId, store.nextPosition bucketId⟩
      only (inserted = true) (appendChange ⟨.update, itemId, item.spaceId, item.revision⟩)

/-- `remove_item_from_bucket`. -/
def removeItemFromBucket (principal : RequestPrincipal) (bucketId itemId : Str) : Tx Unit :=
  transaction do
    let _ ← visibleBucketRow principal bucketId
    let store ← get
    let item ← orThrow (.notFound (str "knowledge item not found"))
      (store.visibleItem? principal itemId)
    let inBucket : BucketItem → Bool := fun row => row.bucketId = bucketId && row.itemId = itemId
    set { store with bucketItems := store.bucketItems.delete inBucket }
    only (store.bucketItems.rows.any inBucket = true)
      (appendChange ⟨.update, itemId, item.spaceId, item.revision⟩)

/-! ## Items -/

/-- What a new item is made from. `itemId` is a fresh id, or the name of an
idempotent request. -/
structure NewItem where
  itemId : Str
  isIdempotent : Bool
  scope : KnowledgeScope
  kind : ItemKind
  title : Str
  text : Str
  sourceAppId : Option Str
  parsedChunks : List Str
  spaceId : Str
  bucketId : Option Str

/-- The chunks of a new item: the parsed ones that are not blank, else its text. -/
def NewItem.chunks (new : NewItem) : List Str :=
  let parsed := (new.parsedChunks.map strip).filter fun chunk => chunk ≠ []
  if parsed = [] then [strip new.text] else parsed

def NewItem.row (new : NewItem) (now : DateTime) (principal : RequestPrincipal) : Item where
  id := new.itemId
  spaceId := new.spaceId
  installationId := principal.installationId
  ownerUserId := principal.actorUserId
  createdByUserId := principal.actorUserId
  visibility := new.scope
  kind := new.kind
  title := strip new.title
  sourceAppId := new.sourceAppId
  status := .ready
  revision := 1
  createdAt := now
  updatedAt := now
  deletedAt := none
  text := strip new.text

/-- The item is put in the bucket it was created for. -/
def placeNewItem (principal : RequestPrincipal) (new : NewItem) (bucketId : Str) : Tx Unit := do
  let bucket ← visibleBucketRow principal bucketId
  if bucket.visibility ≠ new.scope then
    throw (.conflict (str "knowledge bucket visibility differs from the item scope"))
  else
    let store ← get
    let inserted ← insertBucketItem ⟨bucketId, new.itemId, store.nextPosition bucketId⟩
    if inserted then pure () else throw (.integrity (str "knowledge_bucket_items"))

def insertChunk (chunk : Chunk) : Tx Unit := do
  let store ← get
  let chunks ← orThrow (.integrity (str "knowledge_chunks")) (store.chunks.insert? chunk)
  set { store with chunks := chunks }

/-- The rows of a new item. -/
def insertItem (now : DateTime) (principal : RequestPrincipal) (new : NewItem) : Tx Item := do
  let store ← get
  let item := new.row now principal
  let items ← orThrow (.integrity (str "knowledge_items.id")) (store.items.insert? item)
  set { store with items := items }
  forM new.chunks.zipIdx fun chunk =>
    insertChunk ⟨new.itemId, new.spaceId, chunk.2, chunk.1⟩
  appendChange ⟨.create, new.itemId, new.spaceId, 1⟩
  forM new.bucketId.toList (placeNewItem principal new)
  return item

/-- What an idempotent request is told of an item that was deleted. -/
def deletedMessage : Str := "自动同步的知识条目已被删除，不会自动恢复".toList.map Char.toNat

/-- `create_text_item`, after its space and its default bucket are known. -/
def createTextItem (now : DateTime) (principal : RequestPrincipal) (new : NewItem) : Tx Item :=
  transaction do
    if strip new.title = [] || strip new.text = [] then
      throw (.value (str "title and text must not be empty"))
    else if new.scope = .installation && (principal.role = .child || principal.role = .guest) then
      throw (.access (str "this role cannot contribute Local shared knowledge"))
    else
      let store ← get
      match (if new.isIdempotent then store.items.get? new.itemId else none) with
      | none => insertItem now principal new
      | some existing =>
        if visibleItem principal existing then return existing
        else throw (.conflict deletedMessage)

/-- An item that its owner may refresh: a web page, or an artifact of the asking app. -/
def refreshable (item : Item) (generatedSourceAppId : Option Str) : Bool :=
  item.kind = .webpage || item.kind = .artifact && generatedSourceAppId.any (fun app => app ≠ []) &&
    item.sourceAppId = generatedSourceAppId

/-- `update_text_item`: one chunk replaces the chunks of the item. -/
def updateTextItem (now : DateTime) (principal : RequestPrincipal) (itemId : Str)
    (expectedRevision : ℤ) (title text : Str) (generatedSourceAppId : Option Str) : Tx Unit :=
  transaction do
    if strip title = [] || strip text = [] then
      throw (.value (str "title and text must not be empty"))
    else
      let store ← get
      let item ← orThrow (.notFound (str "knowledge item not found"))
        ((store.visibleItem? principal itemId).filter fun item =>
          item.ownerUserId = principal.actorUserId)
      if item.revision ≠ expectedRevision then
        throw (.conflict (str "knowledge item revision changed"))
      else if !refreshable item generatedSourceAppId then
        throw (.conflict (str "only webpage knowledge can be refreshed"))
      else
        let items := store.items.update (fun i => i.id = itemId) (fun i => { i with
            title := strip title, text := strip text, updatedAt := now
            revision := expectedRevision + 1 }) fun _ => rfl
        set { store with
          items := items, chunks := store.chunks.delete fun chunk => chunk.itemId = itemId }
        insertChunk ⟨itemId, item.spaceId, 0, strip text⟩
        appendChange ⟨.update, itemId, item.spaceId, expectedRevision + 1⟩

/-- `delete_item`: the rows stay. -/
def deleteItem (now : DateTime) (principal : RequestPrincipal) (itemId : Str)
    (expectedRevision : ℤ) : Tx Unit :=
  transaction do
    let store ← get
    let item ← orThrow (.notFound (str "knowledge item not found"))
      ((store.items.get? itemId).filter fun item =>
        item.installationId = principal.installationId && item.deletedAt.isNone &&
          item.ownerUserId = principal.actorUserId)
    if item.revision ≠ expectedRevision then
      throw (.conflict (str "knowledge item revision changed"))
    else
      let items := store.items.update (fun i => i.id = itemId) (fun i => { i with
          status := .deleted, deletedAt := some now, updatedAt := now
          revision := expectedRevision + 1 }) fun _ => rfl
      set { store with items := items }
      appendChange ⟨.delete, itemId, item.spaceId, expectedRevision + 1⟩

end AI2Apps.Knowledge
