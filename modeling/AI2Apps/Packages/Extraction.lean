import AI2Apps.Packages.ArchiveIndex

/-!
# Which archives the signed index covers

The index leaves out `META/files.json` and everything under `signatures/` and `attestations/`;
the search for native code looks at indexed files; extraction writes every file.

* `Extracted`: the files of an archive and the directory they are written to.
* `nativeMagic_of_validated`: the policy on native code, for indexed files.
* `Covered`, `Proper`, `covered_iff`: an archive is covered exactly when nothing is hidden
  where the index does not look.
-/

namespace AI2Apps.Packages

variable {tools : Tools} {archive : Archive} {members : List ZipInfo} {store : Store}
  {package : InspectedServicePackage}

/-! ## What is extracted -/

theorem mem_of_mapM_ok {α β : Type} {f : α → Except Refusal β} {l : List α} {r : List β}
    (h : l.mapM f = .ok r) {a : α} (ha : a ∈ l) : ∃ b ∈ r, f a = .ok b := by
  induction l generalizing r with
  | nil => exact absurd ha List.not_mem_nil
  | cons x l ih =>
    rw [List.mapM_cons] at h
    obtain ⟨b, hb, h⟩ := bind_eq_ok.mp h
    obtain ⟨bs, hbs, h⟩ := bind_eq_ok.mp h
    cases h
    rcases List.mem_cons.mp ha with rfl | ha
    · exact ⟨b, List.mem_cons_self, hb⟩
    · obtain ⟨c, hc, hfc⟩ := ih hbs ha
      exact ⟨c, List.mem_cons_of_mem _ hc, hfc⟩

theorem lookup_of_mapM (h : (members.mapM fun item =>
      item.content.map fun content => (item.filename, content)) = some store) (name : Str) :
    store.lookup name = (member members name).bind ZipInfo.content := by
  induction members generalizing store with
  | nil =>
    cases h
    rfl
  | cons item members ih =>
    rw [List.mapM_cons] at h
    obtain ⟨p, hp, h⟩ := Option.bind_eq_some_iff.mp h
    obtain ⟨rest, hrest, h⟩ := Option.bind_eq_some_iff.mp h
    cases h
    obtain ⟨content, hcontent, rfl⟩ := Option.map_eq_some_iff.mp hp
    unfold member
    by_cases hname : item.filename = name
    · rw [List.find?_cons_of_pos (by simpa using hname), hname, List.lookup_cons_self,
        Option.bind_some, hcontent]
    · rw [List.find?_cons_of_neg (by simpa using hname), List.lookup_cons]
      have hne : (name == item.filename) = false := by
        rw [beq_eq_false_iff_ne]
        exact fun heq => hname heq.symm
      rw [hne]
      exact ih hrest

theorem mem_of_mapM (h : (members.mapM fun item =>
      item.content.map fun content => (item.filename, content)) = some store) {name : Str}
    {content : Bytes} :
    (name, content) ∈ store ↔ ∃ item ∈ members, item.filename = name ∧ item.content = some content := by
  induction members generalizing store with
  | nil =>
    cases h
    simp
  | cons item members ih =>
    rw [List.mapM_cons] at h
    obtain ⟨p, hp, h⟩ := Option.bind_eq_some_iff.mp h
    obtain ⟨rest, hrest, h⟩ := Option.bind_eq_some_iff.mp h
    cases h
    obtain ⟨content', hcontent, rfl⟩ := Option.map_eq_some_iff.mp hp
    rw [List.mem_cons, ih hrest, List.exists_mem_cons_iff, hcontent]
    simp only [Prod.mk.injEq, Option.some.injEq]
    exact or_congr ⟨fun h => ⟨h.1.symm, h.2.symm⟩, fun h => ⟨h.1.symm, h.2.symm⟩⟩ Iff.rfl

/-- What is extracted can be read. -/
theorem content_of_mapM (h : (members.mapM fun item =>
      item.content.map fun content => (item.filename, content)) = some store) {item : ZipInfo}
    (hitem : item ∈ members) : ∃ content, item.content = some content := by
  induction members generalizing store with
  | nil => exact absurd hitem List.not_mem_nil
  | cons x members ih =>
    rw [List.mapM_cons] at h
    obtain ⟨p, hp, h⟩ := Option.bind_eq_some_iff.mp h
    obtain ⟨rest, hrest, -⟩ := Option.bind_eq_some_iff.mp h
    rcases List.mem_cons.mp hitem with rfl | hitem
    · obtain ⟨content, hcontent, -⟩ := Option.map_eq_some_iff.mp hp
      exact ⟨content, hcontent⟩
    · exact ih hrest hitem

/-- The files of an archive, and the directory they are extracted into. -/
structure Extracted (tools : Tools) (archive : Archive) (members : List ZipInfo) (store : Store) : Prop where
  entries_eq : entries archive = .ok members
  mapM_eq : (members.mapM fun item => item.content.map fun content => (item.filename, content)) = some store

theorem extract_ok (h : extract tools archive = some store) : ∃ members, Extracted tools archive members store := by
  unfold extract at h
  split at h
  · cases h
  · rename_i members hentries
    split_ifs at h
    exact ⟨members, hentries, h⟩

theorem Extracted.nodup (h : Extracted tools archive members store) : (members.map ZipInfo.filename).Nodup :=
  (entries_ok h.entries_eq).2

theorem Extracted.mem_store (h : Extracted tools archive members store) {name : Str} {content : Bytes} :
    (name, content) ∈ store ↔ ∃ item ∈ members, item.filename = name ∧ item.content = some content :=
  mem_of_mapM h.mapM_eq

theorem Extracted.lookup (h : Extracted tools archive members store) (name : Str) :
    store.lookup name = (member members name).bind ZipInfo.content :=
  lookup_of_mapM h.mapM_eq name

theorem Extracted.lookup_eq_some_iff (h : Extracted tools archive members store) {name : Str}
    {content : Bytes} : store.lookup name = some content ↔ (name, content) ∈ store := by
  rw [h.lookup, h.mem_store, Option.bind_eq_some_iff]
  constructor
  · rintro ⟨item, hitem, hcontent⟩
    obtain ⟨hmem, hname⟩ := (member_eq_some_iff h.nodup).mp hitem
    exact ⟨item, hmem, hname, hcontent⟩
  · rintro ⟨item, hmem, hname, hcontent⟩
    exact ⟨item, (member_eq_some_iff h.nodup).mpr ⟨hmem, hname⟩, hcontent⟩

/-- The index of a model worker lists no native code. -/
theorem nativeMagic_of_validated {files : List PackageFile} {manifest : Manifest} {sbom : Json.Object}
    (h : validateNativeArtifacts tools members manifest files sbom = .ok ())
    (hworker : manifest.protocol = modelWorkerProtocol) {file : PackageFile} (hfile : file ∈ files)
    {item : ZipInfo} {content : Bytes} (hitem : member members file.path = some item)
    (hcontent : item.content = some content) : nativeMagic content = false := by
  unfold validateNativeArtifacts at h
  split at h
  · cases h
  · split at h
    · cases h
    · obtain ⟨contents, hcontents, h⟩ := bind_eq_ok.mp h
      obtain ⟨_, hpolicy, -⟩ := bind_eq_ok.mp h
      rw [refuseIf_eq_ok] at hpolicy
      obtain ⟨p, hp, hread⟩ := mem_of_mapM_ok hcontents hfile
      obtain ⟨content', hmember, hpair⟩ := bind_eq_ok.mp hread
      cases hpair
      have heq : readMember members file.path = .ok content := by
        rw [readMember, hitem, Option.bind_some, hcontent]
      obtain rfl := Except.ok.inj (heq.symm.trans hmember)
      have hclean : nativePayload tools file.path content = false := by
        by_contra hnot
        exact hpolicy ⟨hworker, .inl (List.any_eq_true.mpr ⟨_, hp, by simpa using hnot⟩)⟩
      unfold nativePayload at hclean
      exact (Bool.or_eq_false_iff.mp hclean).2

/-! ## One archive -/

/-- The files that inspection reads as signed metadata. -/
def signedMetadata (name : Str) : Bool :=
  name = filesJson || name = str "signatures/publisher.sig" ||
    (attestationsPrefix.isPrefixOf name && (str ".json").isSuffixOf name)

theorem unindexed_of_signedMetadata {name : Str} (h : signedMetadata name = true) : unindexed name = true := by
  unfold signedMetadata at h
  unfold unindexed
  simp only [Bool.or_eq_true, Bool.and_eq_true, decide_eq_true_eq] at h ⊢
  rcases h with (h | h) | ⟨h, -⟩
  · exact .inl (.inl h)
  · refine .inl (.inr ?_)
    rw [h]
    decide +kernel
  · exact .inr h

/-- Every extracted file is signed metadata or is in the signed index with its hash and its size,
and none of a model worker starts like a native executable. -/
structure Covered (tools : Tools) (package : InspectedServicePackage) (store : Store) : Prop where
  listed : ∀ p ∈ store, signedMetadata p.1 = true ∨ ∃ file ∈ package.files, file.path = p.1 ∧
    file.contentHash = sha256Prefix ++ tools.sha256 p.2 ∧ file.sizeBytes = p.2.length
  native : package.manifest.protocol = modelWorkerProtocol → ∀ p ∈ store, nativeMagic p.2 = false

/-- Nothing is hidden where the index does not look: what it leaves out is metadata and, in a model
worker, does not start like a native executable; and the headers tell the sizes of the others. -/
structure Proper (modelWorker : Prop) (archive : Archive) : Prop where
  metadata : ∀ item ∈ archive, item.isDir = false → unindexed item.filename = true →
    signedMetadata item.filename = true
  sizes : ∀ item ∈ archive, item.isDir = false → unindexed item.filename = false →
    ∀ content, item.content = some content → content.length = item.fileSize
  native : modelWorker → ∀ item ∈ archive, item.isDir = false → unindexed item.filename = true →
    ∀ content, item.content = some content → nativeMagic content = false

/-- **An archive is covered exactly when it is proper.** -/
theorem covered_iff (hinspected : Inspected tools archive members package)
    (hextracted : Extracted tools archive members store) :
    Covered tools package store ↔ Proper (package.manifest.protocol = modelWorkerProtocol) archive := by
  have hmem : ∀ {item : ZipInfo}, item ∈ members ↔ item ∈ archive ∧ item.isDir = false :=
    mem_entries_iff hinspected.entries_eq
  constructor
  · intro hcovered
    refine ⟨fun item hitem hdir hun => ?_, fun item hitem hdir hun content hcontent => ?_,
      fun hworker item hitem hdir _ content hcontent => ?_⟩
    · obtain ⟨content, hcontent⟩ := content_of_mapM hextracted.mapM_eq (hmem.mpr ⟨hitem, hdir⟩)
      rcases hcovered.listed (item.filename, content)
        (hextracted.mem_store.mpr ⟨item, hmem.mpr ⟨hitem, hdir⟩, rfl, hcontent⟩) with
        hmeta | ⟨file, hfile, hpath, -⟩
      · exact hmeta
      · have hin := hinspected.indexed.included file hfile
        rw [hpath, hun] at hin
        cases hin
    · have hmember := hmem.mpr ⟨hitem, hdir⟩
      rcases hcovered.listed (item.filename, content)
        (hextracted.mem_store.mpr ⟨item, hmember, rfl, hcontent⟩) with
        hmeta | ⟨file, hfile, hpath, -, hsize⟩
      · rw [unindexed_of_signedMetadata hmeta] at hun
        cases hun
      · obtain ⟨item', content', hitem', -, hsize', -⟩ := hinspected.indexed.rows file hfile
        rw [hpath, (member_eq_some_iff hextracted.nodup).mpr ⟨hmember, rfl⟩] at hitem'
        cases hitem'
        exact hsize.symm.trans hsize'.symm
    · exact hcovered.native hworker (item.filename, content)
        (hextracted.mem_store.mpr ⟨item, hmem.mpr ⟨hitem, hdir⟩, rfl, hcontent⟩)
  · intro hproper
    refine ⟨fun p hp => ?_, fun hworker p hp => ?_⟩
    · obtain ⟨item, hitem, hname, hcontent⟩ := hextracted.mem_store.mp hp
      obtain ⟨harchive, hdir⟩ := hmem.mp hitem
      rw [← hname]
      cases hun : unindexed item.filename with
      | true => exact .inl (hproper.metadata item harchive hdir hun)
      | false =>
        obtain ⟨file, hfile, hpath⟩ := hinspected.indexed.listed item hitem hun
        obtain ⟨item', content', hitem', hcontent', hsize, hhash⟩ := hinspected.indexed.rows file hfile
        rw [hpath, (member_eq_some_iff hextracted.nodup).mpr ⟨hitem, rfl⟩] at hitem'
        cases hitem'
        obtain rfl := Option.some.inj (hcontent.symm.trans hcontent')
        exact .inr ⟨file, hfile, hpath, hhash,
          hsize.symm.trans (hproper.sizes item harchive hdir hun _ hcontent).symm⟩
    · obtain ⟨item, hitem, hname, hcontent⟩ := hextracted.mem_store.mp hp
      obtain ⟨harchive, hdir⟩ := hmem.mp hitem
      cases hun : unindexed item.filename with
      | true => exact hproper.native hworker item harchive hdir hun _ hcontent
      | false =>
        obtain ⟨file, hfile, hpath⟩ := hinspected.indexed.listed item hitem hun
        exact nativeMagic_of_validated hinspected.native hworker hfile
          (hpath ▸ (member_eq_some_iff hextracted.nodup).mpr ⟨hitem, rfl⟩) hcontent

end AI2Apps.Packages
