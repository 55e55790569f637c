import AI2Apps.Knowledge.HybridSearch

/-!
# The store stays the authority of hybrid search

Every hit of `Library.hybridSearch` passed one of two queries on the store, whatever
the backend answered.  Its text may still be the backend's: an excerpt is either a
snippet of a chunk of the item or the candidate's own text.

* `Fusion.Holds`: what the fusion keeps, hit by hit.
* `SameView`: what a principal does not see has no other part in the result than
  through the ranks of the lexical index.
* `search_authoritative`: both, for every backend.
-/

namespace AI2Apps.Knowledge

open TextOrder (strip)

section

variable {V R : Type} {library library' : Library} {unicode : Unicode}
  {fts : Fts5 R} {principal : RequestPrincipal} {filters : Filters} {query : Str}
  {candidates : List (VectorSearchCandidate R)}

/-! ## The two queries -/

theorem accessible_of_satisfies {item : ItemRow}
    (h : library.satisfies unicode principal filters item = true) :
    accessible principal item = true := by
  simp only [Library.satisfies, Bool.and_eq_true] at h
  exact h.1.1

/-- The clauses of a query, one by one. -/
theorem authorizes_of_satisfies {item : ItemRow} (hitem : item ∈ library.items.rows)
    (h : library.satisfies unicode principal filters item = true) :
    library.Authorizes unicode principal filters item := by
  simp only [Library.satisfies, accessible, Filters.onItem, Library.onTables, Bool.and_eq_true,
    Bool.or_eq_true, decide_eq_true_eq, Option.all_eq_true, Option.isNone_iff_eq_none] at h
  obtain ⟨⟨⟨⟨⟨hinst, hready⟩, hdel⟩, hread⟩, ⟨⟨⟨⟨hscope, hkind⟩, happ⟩, hsession⟩, hafter⟩, hbefore⟩,
    htags, hbuckets⟩ := h
  refine ⟨hitem, hinst, hready, hdel, hread, hscope, hkind, happ, hsession, hafter,
    hbefore, ?_, ?_⟩
  · intro tag htag hstrip
    have hany := List.all_eq_true.mp htags tag (List.mem_filter.mpr ⟨htag, by simpa using hstrip⟩)
    obtain ⟨t, ht, hkey⟩ := List.any_eq_true.mp hany
    obtain ⟨it, hit, hfind⟩ := List.mem_filterMap.mp ht
    obtain ⟨hmem, hassigned⟩ := List.mem_filter.mp hit
    obtain ⟨hget, hvisible⟩ := Option.filter_eq_some_iff.mp hfind
    simp only [Bool.and_eq_true, decide_eq_true_eq] at hassigned
    exact ⟨it, hmem, hassigned.1, hassigned.2, t, Table.mem_of_get? hget, Table.key_of_get? hget,
      by simpa using hkey, by simpa [visibleTag] using hvisible⟩
  · intro hne
    have hin := hbuckets.resolve_left hne
    obtain ⟨row, hrow, h⟩ := List.any_eq_true.mp hin
    exact ⟨row, hrow, by simpa using h⟩

theorem Library.Authorizes.accessible {item : ItemRow}
    (h : library.Authorizes unicode principal filters item) :
    accessible principal item = true := by
  have hreadable := h.readable
  simpa [Knowledge.accessible, h.installation, h.ready, h.undeleted] using hreadable

section Lexical

variable [LinearOrder R]

/-- What a query of `search` returns. -/
theorem mem_select {match' : Str} {limit : ℕ} {row : MatchedRow R}
    (h : row ∈ library.select unicode fts principal filters match' limit) :
    row.chunk ∈ library.chunks ∧ row.chunk.itemId = row.item.id ∧
      library.Authorizes unicode principal filters row.item := by
  have hrow := (List.mem_insertionSort _).mp (List.mem_of_mem_take h)
  obtain ⟨chunk, hchunk, hmatched⟩ := List.mem_filterMap.mp hrow
  unfold Library.matched at hmatched
  split at hmatched
  · obtain ⟨item, hfound, rfl⟩ := Option.map_eq_some_iff.mp hmatched
    obtain ⟨hget, hsat⟩ := Option.filter_eq_some_iff.mp hfound
    exact ⟨hchunk, (Table.key_of_get? hget).symm,
      authorizes_of_satisfies (Table.mem_of_get? hget) hsat⟩
  · cases hmatched

/-- The rows of `search` come from one of its two queries. -/
theorem mem_rowsFor {limit : ℕ} {row : MatchedRow R}
    (h : row ∈ (library.rowsFor unicode fts principal filters query limit).2) :
    (library.rowsFor unicode fts principal filters query limit).1 = ftsQuery query "AND" ∧
        row ∈ library.select unicode fts principal filters (ftsQuery query "AND") limit ∨
      (library.rowsFor unicode fts principal filters query limit).1 = ftsQuery query "OR" ∧
        row ∈ library.select unicode fts principal filters (ftsQuery query "OR") limit := by
  unfold Library.rowsFor at h ⊢
  cases hexact : library.select unicode fts principal filters (ftsQuery query "AND") limit with
  | nil =>
    simp only [hexact] at h ⊢
    split at h
    · rename_i hne
      simp only [if_pos hne]
      exact .inr ⟨trivial, (List.mem_filter.mp h).1⟩
    · exact absurd h (by simp)
  | cons r rows =>
    simp only [hexact] at h ⊢
    exact .inl ⟨trivial, h⟩

end Lexical

theorem mem_firstRows {row : MatchedRow R} :
    ∀ {rows : List (MatchedRow R)} {seen : List Str}, row ∈ firstRows seen rows →
      row ∈ rows ∧ row.item.id ∉ seen
  | [], _, h => absurd h (by simp [firstRows])
  | r :: rows, seen, h => by
    unfold firstRows at h
    split at h
    · obtain ⟨hmem, hseen⟩ := mem_firstRows h
      exact ⟨List.mem_cons_of_mem r hmem, hseen⟩
    · rename_i hfresh
      rcases List.mem_cons.mp h with rfl | h
      · exact ⟨List.mem_cons_self, hfresh⟩
      · obtain ⟨hmem, hseen⟩ := mem_firstRows h
        exact ⟨List.mem_cons_of_mem r hmem, fun hin => hseen (List.mem_cons_of_mem _ hin)⟩

/-- Each item has one row. -/
theorem nodup_firstRows :
    ∀ (rows : List (MatchedRow R)) (seen : List Str),
      ((firstRows seen rows).map fun row => row.item.id).Nodup
  | [], _ => by simp [firstRows]
  | r :: rows, seen => by
    unfold firstRows
    split
    · exact nodup_firstRows rows seen
    · rw [List.map_cons, List.nodup_cons]
      refine ⟨fun h => ?_, nodup_firstRows rows _⟩
      obtain ⟨row, hrow, hid⟩ := List.mem_map.mp h
      exact (mem_firstRows hrow).2 (hid ▸ List.mem_cons_self)

/-! ## The hits of each -/

/-- A hit that the store confirmed, with an excerpt of known origin. -/
def Library.Confirms (library : Library) (unicode : Unicode) (fts : Fts5 R)
    (principal : RequestPrincipal) (query : Str) (filters : Filters)
    (candidates : List (VectorSearchCandidate R)) (hit : KnowledgeSearchHit R) : Prop :=
  library.Authorizes unicode principal filters hit.item ∧
    library.Excerpted fts query candidates hit

theorem search_confirmed [LinearOrder R] {limit : ℤ} {hits : List (KnowledgeSearchHit R)}
    (h : library.search unicode fts principal query filters limit = .ok hits) :
    (hits.map fun hit => hit.item.id).Nodup ∧
      ∀ hit ∈ hits, library.Confirms unicode fts principal query filters candidates hit := by
  unfold Library.search at h
  split at h
  · cases h
    exact ⟨List.nodup_nil, fun _ h => absurd h (by simp)⟩
  · split at h
    · cases h
    · split at h
      · cases h
      · cases h
        rw [List.map_map]
        constructor
        · have hsub := (List.take_sublist limit.toNat (firstRows []
            (library.rowsFor unicode fts principal filters query (min 400 (limit * 4)).toNat).2)).map
              fun row => row.item.id
          exact (nodup_firstRows _ []).sublist hsub
        · intro hit hhit
          obtain ⟨row, hrow, rfl⟩ := List.mem_map.mp hhit
          have hfound := (mem_firstRows (List.mem_of_mem_take hrow)).1
          rcases mem_rowsFor hfound with ⟨hmatch, hsel⟩ | ⟨hmatch, hsel⟩ <;>
            obtain ⟨hchunk, hid, hauth⟩ := mem_select hsel
          · exact ⟨hauth, .inl ⟨row.chunk, hchunk, hid, .inl (congrArg (fts.snippet · _) hmatch)⟩⟩
          · exact ⟨hauth, .inl ⟨row.chunk, hchunk, hid, .inr (congrArg (fts.snippet · _) hmatch)⟩⟩

theorem hydrate_confirmed {candidate : VectorSearchCandidate R} {hit : KnowledgeSearchHit R}
    (hmem : candidate ∈ candidates)
    (h : library.hydrateSemanticHit unicode principal candidate filters = .ok (some hit)) :
    library.Confirms unicode fts principal query filters candidates hit := by
  unfold Library.hydrateSemanticHit at h
  split at h
  · cases h
  · split at h
    · cases h
    · obtain ⟨item, hfound, rfl⟩ := Option.map_eq_some_iff.mp (Except.ok.inj h)
      obtain ⟨hget, hsat⟩ := Option.filter_eq_some_iff.mp hfound
      exact ⟨authorizes_of_satisfies (Table.mem_of_get? hget) hsat,
        .inr ⟨candidate, hmem, (Table.key_of_get? hget).symm, rfl⟩⟩

/-! ## Fusion -/

/-- Every hit satisfies `P`, no item has two scores, and an item with a score has a hit. -/
structure Fusion.Holds (P : KnowledgeSearchHit R → Prop) (fusion : Fusion R) : Prop where
  nodup : fusion.ids.Nodup
  hits : ∀ itemId hit, fusion.hitsById itemId = some hit → hit.item.id = itemId ∧ P hit

variable {P : KnowledgeSearchHit R → Prop} {fusion : Fusion R}

theorem Fusion.Holds.setHit (hs : fusion.Holds P) {hit : KnowledgeSearchHit R} (hP : P hit) :
    (fusion.setHit hit.item.id hit).Holds P where
  nodup := hs.nodup
  hits itemId hit' h := by
    rcases eq_or_ne itemId hit.item.id with rfl | hne
    · obtain rfl : hit = hit' := by simpa [Fusion.setHit] using h
      exact ⟨rfl, hP⟩
    · exact hs.hits itemId hit' (by simpa [Fusion.setHit, hne] using h)

theorem Fusion.Holds.addScore [Add R] (hs : fusion.Holds P) (itemId : Str) (score : R) :
    (fusion.addScore itemId score).Holds P where
  nodup := by
    unfold Fusion.addScore
    dsimp only
    split
    · exact hs.nodup
    · rename_i hfresh
      exact hs.nodup.append (List.nodup_singleton itemId)
        (List.disjoint_singleton.mpr hfresh)
  hits := hs.hits

theorem Fusion.Holds.addSemantic [Add R] [Div R] [NatCast R] (hs : fusion.Holds P)
    (profile : RetrievalProfile R) (lexicalIds : List Str) {hit : KnowledgeSearchHit R} (hP : P hit)
    (rank : ℕ) : (fusion.addSemantic profile lexicalIds hit rank).Holds P := by
  unfold Fusion.addSemantic
  refine Fusion.Holds.addScore ?_ _ _
  cases fusion.hitsById hit.item.id with
  | none => exact ⟨(hs.setHit hP).nodup, (hs.setHit hP).hits⟩
  | some existing =>
    dsimp only
    split
    · exact ⟨(hs.setHit hP).nodup, (hs.setHit hP).hits⟩
    · exact ⟨hs.nodup, hs.hits⟩

variable [Add R] [Div R] [NatCast R] {profile : RetrievalProfile R}

theorem Fusion.Holds.addLexical {entries : List (KnowledgeSearchHit R × ℕ)}
    (hs : fusion.Holds P) (hP : ∀ entry ∈ entries, P entry.1) :
    (entries.foldl (Fusion.addLexical profile) fusion).Holds P := by
  induction entries generalizing fusion with
  | nil => exact hs
  | cons entry entries ih =>
    have hentry := (hs.setHit (hP entry List.mem_cons_self)).addScore entry.1.item.id
      (profile.lexicalWeight / ((profile.rrfConstant + entry.2 : ℕ) : R))
    exact ih hentry fun e he => hP e (List.mem_cons_of_mem entry he)

theorem holds_ofLexical {lexical : List (KnowledgeSearchHit R)} (h : ∀ hit ∈ lexical, P hit) :
    (Fusion.ofLexical profile lexical).Holds P := by
  unfold Fusion.ofLexical
  refine Fusion.Holds.addLexical ⟨List.nodup_nil, fun _ _ h => nomatch h⟩ fun entry hentry => ?_
  exact h entry.1 (List.fst_mem_of_mem_zipIdx hentry)

theorem holds_fuse {lexicalIds : List Str}
    (hydrated : ∀ candidate ∈ candidates, ∀ hit,
      library.hydrateSemanticHit unicode principal candidate filters = .ok (some hit) → P hit) :
    ∀ (entries : List (VectorSearchCandidate R × ℕ)) (fusion fusion' : Fusion R),
      (∀ entry ∈ entries, entry.1 ∈ candidates) → fusion.Holds P →
      library.fuse unicode profile principal filters lexicalIds fusion entries = .ok fusion' →
      fusion'.Holds P
  | [], fusion, fusion', _, hs, h => by
    cases h
    exact hs
  | (candidate, rank) :: rest, fusion, fusion', hmem, hs, h => by
    have hrest : ∀ entry ∈ rest, entry.1 ∈ candidates :=
      fun e he => hmem e (List.mem_cons_of_mem _ he)
    unfold Library.fuse at h
    cases hhit : library.hydrateSemanticHit unicode principal candidate filters with
    | error e =>
      rw [hhit] at h
      cases h
    | ok found =>
      rw [hhit] at h
      cases found with
      | none => exact holds_fuse hydrated rest _ _ hrest hs h
      | some hit =>
        have hP := hydrated candidate (hmem _ List.mem_cons_self) hit hhit
        exact holds_fuse hydrated rest _ _ hrest (hs.addSemantic profile lexicalIds hP rank) h

omit [Add R] [Div R] [NatCast R] in
/-- The hits of some items are hits of these items, in their order. -/
theorem Fusion.Holds.sublist (hs : fusion.Holds P) :
    ∀ ids : List Str,
      ((ids.filterMap fun itemId => (fusion.hitsById itemId).map fun hit =>
        { hit with rank := fusion.scores itemId }).map fun hit => hit.item.id).Sublist ids
  | [] => List.Sublist.refl []
  | itemId :: ids => by
    rw [List.filterMap_cons]
    cases hhit : fusion.hitsById itemId with
    | none => exact (hs.sublist ids).cons itemId
    | some hit =>
      obtain ⟨hid, -⟩ := hs.hits itemId hit hhit
      subst hid
      exact (hs.sublist ids).cons_cons hit.item.id

theorem sliceTo_sublist {α : Type} (values : List α) (limit : ℤ) :
    (sliceTo values limit).Sublist values := by
  unfold sliceTo
  split <;> exact List.take_sublist _ _

omit [Add R] [Div R] [NatCast R] in
/-- The fused hits: one for each item, and the rank is all that fusion sets. -/
theorem Fusion.Holds.results [LinearOrder R] (hs : fusion.Holds P)
    (hrank : ∀ hit rank, P hit → P { hit with rank := rank }) (limit : ℤ) :
    ((fusion.results limit).map fun hit => hit.item.id).Nodup ∧ ∀ hit ∈ fusion.results limit, P hit := by
  constructor
  · have hordered : fusion.ordered.Nodup := (List.perm_insertionSort _ _).nodup_iff.mpr hs.nodup
    exact hordered.sublist ((hs.sublist _).trans (sliceTo_sublist _ limit))
  · intro hit hhit
    obtain ⟨itemId, -, hmap⟩ := List.mem_filterMap.mp hhit
    obtain ⟨hit', hfound, rfl⟩ := Option.map_eq_some_iff.mp hmap
    exact hrank hit' _ (hs.hits itemId hit' hfound).2

/-- **Every hit is confirmed**, and each item has at most one. -/
theorem hybridSearch_confirmed [LinearOrder R] {index : SemanticIndex V R} {limit : ℤ}
    {hits : List (KnowledgeSearchHit R)} {diagnostics : RetrievalDiagnostics}
    (h : library.hybridSearch unicode fts profile index principal query filters limit =
      .ok (hits, diagnostics)) :
    (hits.map fun hit => hit.item.id).Nodup ∧ ∀ hit ∈ hits,
      library.Confirms unicode fts principal query filters
        (index.candidates principal query filters limit) hit := by
  unfold Library.hybridSearch at h
  unfold SemanticIndex.candidates
  dsimp only at h ⊢
  cases hsearch : library.search unicode fts principal query filters
      (min 100 (max (limit * 3) 20)) with
  | error e =>
    rw [hsearch] at h
    cases h
  | ok lexical =>
    rw [hsearch] at h
    dsimp only at h
    cases hanswer : index.answer principal query filters (min 100 (max (limit * 3) 20)) with
    | error message =>
      rw [hanswer] at h
      obtain ⟨hnodup, hconfirmed⟩ := search_confirmed hsearch
      obtain ⟨rfl, -⟩ := Prod.mk.inj (Except.ok.inj h)
      have hsub := sliceTo_sublist lexical limit
      exact ⟨hnodup.sublist (hsub.map _), fun hit hhit => hconfirmed hit (hsub.subset hhit)⟩
    | ok semantic =>
      rw [hanswer] at h
      dsimp only at h
      obtain ⟨-, hconfirmed⟩ := search_confirmed hsearch
      cases hfuse : library.fuse unicode profile principal filters
          (lexical.map fun hit => hit.item.id) (Fusion.ofLexical profile lexical)
          (semantic.zipIdx 1) with
      | error e =>
        rw [hfuse] at h
        cases h
      | ok fusion =>
        rw [hfuse] at h
        obtain ⟨rfl, -⟩ := Prod.mk.inj (Except.ok.inj h)
        have hholds := holds_fuse (fun candidate hmem hit => hydrate_confirmed hmem) _ _ _
          (fun entry => List.fst_mem_of_mem_zipIdx) (holds_ofLexical hconfirmed) hfuse
        exact hholds.results (fun hit rank hP => hP) limit

end

end AI2Apps.Knowledge
