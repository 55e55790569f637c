import AI2Apps.Knowledge.SearchAuthority
import Mathlib.Data.Rat.Cast.Order

/-!
# What a search lets through of rows it may not read

A row that the principal cannot read takes part in a search in one way only: `bm25`
weighs a chunk against every document of the index.  Where the ranks of the readable
chunks are the same, so is the whole result.

* `SameView.found`: both queries read the same items.
* `hybridSearch_congr`: the result is the same.
* `search_authoritative`: the two laws of hybrid search.
-/

namespace AI2Apps.Knowledge

open TextOrder (strip)

section

variable {V R : Type} {library library' : Library} {unicode : Unicode}
  {fts : Fts5 R} {principal : RequestPrincipal} {filters : Filters} {query : Str}

theorem mem_of_filter_eq {α : Type} {p : α → Bool} {l l' : List α} (h : l'.filter p = l.filter p)
    {a : α} (ha : a ∈ l) (hp : p a = true) : a ∈ l' :=
  List.mem_of_mem_filter (h ▸ List.mem_filter.mpr ⟨ha, hp⟩)

/-- A lookup among the rows that satisfy `p` sees only those rows. -/
theorem get?_filter_congr {ρ κ : Type} [DecidableEq κ] {key : ρ → κ} {t t' : Table ρ key}
    {p q : ρ → Bool} (h : t'.rows.filter p = t.rows.filter p) (hq : ∀ r, q r = true → p r = true)
    (k : κ) : (t'.get? k).filter q = (t.get? k).filter q := by
  refine Option.ext fun r => ?_
  rw [Option.filter_eq_some_iff, Option.filter_eq_some_iff, Table.get?_eq_some_iff,
    Table.get?_eq_some_iff]
  constructor
  · rintro ⟨⟨hr, hk⟩, hqr⟩
    exact ⟨⟨mem_of_filter_eq h.symm hr (hq r hqr), hk⟩, hqr⟩
  · rintro ⟨⟨hr, hk⟩, hqr⟩
    exact ⟨⟨mem_of_filter_eq h hr (hq r hqr), hk⟩, hqr⟩

/-! ## Conditions -/

theorem SameView.bucketsVisible (hview : SameView principal library library')
    (bucketIds : List Str) :
    library'.bucketsVisible principal bucketIds = library.bucketsVisible principal bucketIds := by
  unfold Library.bucketsVisible
  refine congrArg bucketIds.all (funext fun id => ?_)
  have hfind := get?_filter_congr hview.buckets (fun _ h => h) id
  rw [← Option.isSome_filter, hfind, Option.isSome_filter]

theorem inBucket_iff {bucketIds : List Str} {itemId : Str} :
    library.inBucket bucketIds itemId = true ↔
      ∃ id ∈ bucketIds, library.inBucket [id] itemId = true := by
  simp only [Library.inBucket, List.any_eq_true, Bool.and_eq_true, decide_eq_true_eq,
    List.mem_singleton]
  constructor
  · rintro ⟨row, hrow, hitem, hin⟩
    exact ⟨row.bucketId, hin, row, hrow, hitem, rfl⟩
  · rintro ⟨id, hid, row, hrow, hitem, rfl⟩
    exact ⟨row, hrow, hitem, hid⟩

theorem SameView.inBucket (hview : SameView principal library library') {item : ItemRow}
    (hitem : item ∈ library.items.rows) (haccess : accessible principal item = true)
    {bucketIds : List Str} (hvisible : library.bucketsVisible principal bucketIds = true) :
    library'.inBucket bucketIds item.id = library.inBucket bucketIds item.id := by
  have hone : ∀ id ∈ bucketIds, library'.inBucket [id] item.id = library.inBucket [id] item.id := by
    intro id hid
    have hany := List.all_eq_true.mp hvisible id hid
    obtain ⟨bucket, hget, hbucket⟩ := (Option.any_eq_true _ _).mp hany
    have h := hview.bucketItems item hitem haccess bucket (Table.mem_of_get? hget) hbucket
    rwa [Table.key_of_get? hget] at h
  rw [Bool.eq_iff_iff, inBucket_iff, inBucket_iff]
  exact exists_congr fun id => and_congr_right fun hid => by rw [hone id hid]

/-- The conditions on an item that can be read say the same in both libraries. -/
theorem SameView.satisfies (hview : SameView principal library library') {item : ItemRow}
    (hitem : item ∈ library.items.rows) (haccess : accessible principal item = true)
    (hvisible : library.bucketsVisible principal filters.bucketIds = true) :
    library'.satisfies unicode principal filters item =
      library.satisfies unicode principal filters item := by
  unfold Library.satisfies Library.onTables
  rw [hview.tags item hitem haccess, hview.inBucket hitem haccess hvisible]

/-- **Both queries read the same items.** -/
theorem SameView.found (hview : SameView principal library library')
    (hvisible : library.bucketsVisible principal filters.bucketIds = true) (itemId : Str) :
    (library'.items.get? itemId).filter (library'.satisfies unicode principal filters) =
      (library.items.get? itemId).filter (library.satisfies unicode principal filters) := by
  have hget := get?_filter_congr hview.items (fun _ => accessible_of_satisfies) itemId
    (q := library.satisfies unicode principal filters)
  rw [← hget]
  refine Option.ext fun item => ?_
  rw [Option.filter_eq_some_iff, Option.filter_eq_some_iff]
  refine and_congr_right fun hitem => ?_
  have hmem := Table.mem_of_get? hitem
  constructor
  · intro h
    have haccess := accessible_of_satisfies h
    rwa [hview.satisfies (mem_of_filter_eq hview.items.symm hmem haccess) haccess hvisible] at h
  · intro h
    have haccess := accessible_of_satisfies h
    rwa [hview.satisfies (mem_of_filter_eq hview.items.symm hmem haccess) haccess hvisible]

theorem SameView.tagsForItem (hview : SameView principal library library') {item : ItemRow}
    (hitem : item ∈ library.items.rows) (haccess : accessible principal item = true) :
    library'.tagsForItem principal item.id = library.tagsForItem principal item.id := by
  unfold Library.tagsForItem
  rw [hview.tags item hitem haccess]

/-! ## Semantic candidates -/

theorem SameView.hydrateSemanticHit (hview : SameView principal library library')
    (candidate : VectorSearchCandidate R) :
    library'.hydrateSemanticHit unicode principal candidate filters =
      library.hydrateSemanticHit unicode principal candidate filters := by
  unfold Library.hydrateSemanticHit
  rw [hview.bucketsVisible]
  split
  · rfl
  · split
    · rfl
    · rename_i hvisible
      have hvisible' : library.bucketsVisible principal filters.bucketIds = true := by
        simpa using hvisible
      rw [hview.found hvisible' candidate.itemId]
      refine congrArg Except.ok (Option.map_congr fun item hitem => ?_)
      obtain ⟨hget, hsat⟩ := Option.filter_eq_some_iff.mp hitem
      have hmem := Table.mem_of_get? hget
      have haccess := accessible_of_satisfies hsat
      rw [hview.tagsForItem hmem haccess, hview.facets item hmem haccess]

theorem SameView.fuse [Add R] [Div R] [NatCast R] {profile : RetrievalProfile R}
    (hview : SameView principal library library') (lexicalIds : List Str) :
    ∀ (entries : List (VectorSearchCandidate R × ℕ)) (fusion : Fusion R),
      library'.fuse unicode profile principal filters lexicalIds fusion entries =
        library.fuse unicode profile principal filters lexicalIds fusion entries
  | [], _ => rfl
  | (candidate, rank) :: rest, fusion => by
    unfold Library.fuse
    rw [hview.hydrateSemanticHit candidate]
    cases library.hydrateSemanticHit unicode principal candidate filters with
    | error e => rfl
    | ok found =>
      cases found with
      | none => exact hview.fuse lexicalIds rest fusion
      | some hit => exact hview.fuse lexicalIds rest _

/-! ## Lexical search -/

variable [LinearOrder R]

omit [LinearOrder R] in
/-- A chunk that cannot be read matches nothing. -/
theorem matched_of_unreadable {match' : Str} {chunk : IndexedChunk}
    (h : library.readable principal chunk = false) :
    library.matched unicode fts principal filters match' chunk = none := by
  unfold Library.matched
  split
  · rw [Option.map_eq_none_iff, Option.filter_eq_none_iff]
    intro item hitem hsat
    have haccess : library.readable principal chunk = true :=
      (Option.any_eq_true _ _).mpr ⟨item, hitem, accessible_of_satisfies hsat⟩
    rw [h] at haccess
    cases haccess
  · rfl

omit [LinearOrder R] in
theorem filterMap_matched (match' : Str) :
    library.chunks.filterMap (library.matched unicode fts principal filters match') =
      (library.chunks.filter (library.readable principal)).filterMap
        (library.matched unicode fts principal filters match') := by
  rw [List.filterMap_filter]
  refine List.filterMap_congr fun chunk _ => ?_
  cases hread : library.readable principal chunk with
  | true => rfl
  | false => exact matched_of_unreadable hread

theorem SameView.select (hview : SameView principal library library')
    (hranks : SameRanks fts principal query library library')
    (hvisible : library.bucketsVisible principal filters.bucketIds = true) {match' : Str}
    (hmatch : match' = ftsQuery query "AND" ∨ match' = ftsQuery query "OR") (limit : ℕ) :
    library'.select unicode fts principal filters match' limit =
      library.select unicode fts principal filters match' limit := by
  unfold Library.select
  rw [filterMap_matched match', hview.chunks, filterMap_matched match']
  refine congrArg (fun rows => (List.insertionSort MatchedRow.before rows).take limit) ?_
  refine List.filterMap_congr fun chunk hchunk => ?_
  obtain ⟨hmem, hread⟩ := List.mem_filter.mp hchunk
  unfold Library.matched
  rw [hview.found hvisible chunk.itemId, hranks chunk hmem hread match' hmatch]

theorem SameView.rowsFor (hview : SameView principal library library')
    (hranks : SameRanks fts principal query library library')
    (hvisible : library.bucketsVisible principal filters.bucketIds = true) (limit : ℕ) :
    library'.rowsFor unicode fts principal filters query limit =
      library.rowsFor unicode fts principal filters query limit := by
  unfold Library.rowsFor
  dsimp only
  rw [hview.select hranks hvisible (.inl rfl), hview.select hranks hvisible (.inr rfl)]

theorem SameView.search (hview : SameView principal library library')
    (hranks : SameRanks fts principal query library library') (limit : ℤ) :
    library'.search unicode fts principal query filters limit =
      library.search unicode fts principal query filters limit := by
  unfold Library.search
  rw [hview.bucketsVisible]
  split
  · rfl
  · split
    · rfl
    · split
      · rfl
      · rename_i hvisible
        have hvisible' : library.bucketsVisible principal filters.bucketIds = true := by
          simpa using hvisible
        dsimp only
        rw [hview.rowsFor hranks hvisible']
        refine congrArg Except.ok (List.map_congr_left fun row hrow => ?_)
        have hauth : library.Authorizes unicode principal filters row.item := by
          have hfound := (mem_firstRows (List.mem_of_mem_take hrow)).1
          rcases mem_rowsFor hfound with ⟨-, hsel⟩ | ⟨-, hsel⟩
          · exact (mem_select hsel).2.2
          · exact (mem_select hsel).2.2
        unfold Library.lexicalHit
        rw [hview.tagsForItem hauth.stored hauth.accessible,
          hview.facets row.item hauth.stored hauth.accessible]

/-- **Rows that cannot be read change nothing but ranks.** -/
theorem hybridSearch_congr [Add R] [Div R] [NatCast R] {profile : RetrievalProfile R}
    {index : SemanticIndex V R} {limit : ℤ} (hview : SameView principal library library')
    (hranks : SameRanks fts principal query library library') :
    library'.hybridSearch unicode fts profile index principal query filters limit =
      library.hybridSearch unicode fts profile index principal query filters limit := by
  unfold Library.hybridSearch
  dsimp only
  rw [hview.search hranks]
  cases library.search unicode fts principal query filters (min 100 (max (limit * 3) 20)) with
  | error e => rfl
  | ok lexical =>
    dsimp only
    cases index.answer principal query filters (min 100 (max (limit * 3) 20)) with
    | error message => rfl
    | ok semantic =>
      dsimp only
      rw [hview.fuse]

end

/-! ## The laws of hybrid search -/

/-- **The store stays the authority of hybrid search.** Whatever the backend answers, every
hit is an item of the store that the principal may read and that passes the filters, no
item is returned twice, and an excerpt is a snippet of a chunk of the item or the text that
the backend gave for it; rows that the principal may not read change the result only
through the ranks of chunks it may read. -/
theorem search_authoritative {V R : Type} [LinearOrder R] [Add R] [Div R] [NatCast R]
    (library : Library) (unicode : Unicode) (fts : Fts5 R) (profile : RetrievalProfile R)
    (index : SemanticIndex V R) (principal : RequestPrincipal) (query : Str) (filters : Filters)
    (limit : ℤ) :
    (∀ hits diagnostics,
      library.hybridSearch unicode fts profile index principal query filters limit =
          .ok (hits, diagnostics) →
        (hits.map fun hit => hit.item.id).Nodup ∧ ∀ hit ∈ hits,
          library.Authorizes unicode principal filters hit.item ∧
            library.Excerpted fts query (index.candidates principal query filters limit) hit) ∧
    ∀ library', SameView principal library library' →
      SameRanks fts principal query library library' →
        library'.hybridSearch unicode fts profile index principal query filters limit =
          library.hybridSearch unicode fts profile index principal query filters limit :=
  ⟨fun _ _ h => hybridSearch_confirmed h, fun _ hview hranks => hybridSearch_congr hview hranks⟩

/-! ## What is not promised -/

section Counterexample

/-- The words of a document, of both columns. -/
def Document.words (document : Document) : List Str :=
  runsOf (fun c => c ≠ 32) document.title ++ runsOf (fun c => c ≠ 32) document.text

/-- How often a word occurs; the title counts three times. -/
def Document.weight (document : Document) (word : Str) : ℕ :=
  3 * (runsOf (fun c => c ≠ 32) document.title).count word +
    (runsOf (fun c => c ≠ 32) document.text).count word

/-- Okapi ranks of a query of one word, up to the factor that all rows share. -/
def oneWordIndex : Fts5 ℚ where
  isMatch query document := (query.drop 1).dropLast ∈ document.words
  bm25 query documents document :=
    let frequency : ℚ := document.weight (query.drop 1).dropLast
    let average : ℚ := (documents.map fun d => d.words.length).sum / documents.length
    let saturation := frequency / (frequency + 3 / 10 + 9 / 10 * document.words.length / average)
    0 - saturation
  snippet query document := ([32] : Str).intercalate
    ((runsOf (fun c => c ≠ 32) document.text).map fun word =>
      if word = (query.drop 1).dropLast then str "<mark>" ++ word ++ str "</mark>" else word)

def asciiTables : Unicode where
  nfkc := id
  casefold := id
  isWord c := 97 ≤ c && c ≤ 122
  digit? c := if 48 ≤ c ∧ c ≤ 57 then some (c - 48) else none

def noteOf (id owner text : String) : ItemRow where
  id := str id
  spaceId := str owner
  installationId := str "local"
  ownerUserId := str owner
  createdByUserId := str owner
  visibility := .personal
  kind := .note
  title := str "t"
  text := str text
  sourceTime := some (str "2026-01-01T05:00:00+08:00")
  sourceAppId := none
  sourceSessionId := none
  sourceUrl := none
  status := .ready
  revision := 1
  createdAt := str "2026-01-02T00:00:00.000000Z"
  updatedAt := str "2026-01-02T00:00:00.000000Z"
  deletedAt := none

def shelfOf (items : List ItemRow) (h : (items.map ItemRow.id).Nodup) : Library where
  items := ⟨items, h⟩
  chunks := items.map fun item => ⟨item.id, ⟨item.title, item.text⟩, []⟩
  tags := .empty
  itemTags := []
  facets := []
  buckets := .empty
  bucketItems := []

/-- Two notes of one user. -/
def ownShelf : Library :=
  shelfOf [noteOf "a" "anna" "x", noteOf "b" "anna" "x x y y y y y y"] (by decide)

/-- The same, and a long note of another user. -/
def sharedShelf : Library :=
  shelfOf [noteOf "a" "anna" "x", noteOf "b" "anna" "x x y y y y y y",
    noteOf "c" "bert" "z z z z z z z z z z z z z z z z z z z z z z z z z z z z z z z z z z z z z z"]
    (by decide)

def unfiltered : Filters := ⟨none, none, [], [], none, none, none, none⟩

/-- A search of the first user: ids and excerpts of the hits. -/
def annaFinds (library : Library) (answer : List (VectorSearchCandidate ℚ)) (query : String)
    (filters : Filters) (limit : ℤ) : Option (List (Str × Str)) :=
  ((library.hybridSearch asciiTables oneWordIndex ⟨str "profile", 60, 1, 1⟩
    (⟨fun _ => .ok [()], fun _ => .ok answer⟩ : SemanticIndex Unit ℚ)
    ⟨str "anna", str "local", .member⟩ (str query) filters limit).toOption).map fun result =>
      result.1.map fun hit => (hit.item.id, hit.excerpt)

/-- A backend's text becomes the excerpt of an item whose text is another; a note of another
user changes which item is found; and a note of nine in the evening passes a filter for
what is later than midnight, since its own clock says five in the morning. -/
theorem excerpt_forged :
    annaFinds ownShelf [⟨str "k", str "a", str "forged", 0⟩] "w" unfiltered 20 =
        some [(str "a", str "forged")] ∧
      (SameView ⟨str "anna", str "local", .member⟩ ownShelf sharedShelf ∧
        annaFinds ownShelf [] "x" unfiltered 1 = some [(str "a", str "<mark>x</mark>")] ∧
        (annaFinds sharedShelf [] "x" unfiltered 1).map (List.map Prod.fst) = some [str "b"]) ∧
      (annaFinds ownShelf [] "x"
        { unfiltered with sourceAfter := some (str "2026-01-01T00:00:00+00:00") } 1).map
          (List.map Prod.fst) = some [str "a"] := by
  refine ⟨by decide +kernel, ⟨⟨rfl, rfl, ?_, ?_, rfl, ?_⟩, by decide +kernel, by decide +kernel⟩,
    by decide +kernel⟩
  · exact fun _ _ _ => rfl
  · exact fun _ _ _ => rfl
  · exact fun _ _ _ _ _ _ => rfl

end Counterexample

end AI2Apps.Knowledge
