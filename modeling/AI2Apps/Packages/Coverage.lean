import AI2Apps.Packages.Extraction

/-!
# What a package digest fixes

Two packages of one digest have one index, so their indexed files are the same; what the index
leaves out may differ, and decides whether the two installed packages do.

* `lookup_of_sameLeftOut`: the files of two packages of one digest.
* `validateInstalled_congr`: the check of an installed package.
* `archive_coverage`: what one archive covers, and what two of one digest share.
* `hidden_library`: an accepted package whose native library is not indexed.
-/

namespace AI2Apps.Packages

variable {tools : Tools} {archive : Archive} {members : List ZipInfo} {store : Store}
  {package : InspectedServicePackage}

/-! ## Two archives of one digest -/

/-- What reading a file of an archive gives. -/
def memberContent (archive : Archive) (name : Str) : Option Bytes :=
  (member (archive.filter fun item => !item.isDir) name).bind ZipInfo.content

/-- The files that the index leaves out are the same. -/
def SameLeftOut (a b : Archive) : Prop :=
  ∀ name, unindexed name = true → memberContent a name = memberContent b name

/-- Two directories have the same files, and the check of an installed package says the same of
them, whatever record and publishers it is made with.  (The Cloud contract names an archive by
other bytes, and its packages are not accepted by this inspector.) -/
structure Agreeing (tools : Tools) (a b : Archive) (storeA storeB : Store) : Prop where
  files : ∀ name, storeA.lookup name = storeB.lookup name
  validation : ∀ trust contract record, record.trust ≠ some cloudTrust →
    validateInstalled tools trust contract record (installed a storeA) =
      validateInstalled tools trust contract record (installed b storeB)

theorem Extracted.lookup_eq_memberContent (h : Extracted tools archive members store) (name : Str) :
    store.lookup name = memberContent archive name := by
  rw [h.lookup, memberContent, (entries_ok h.entries_eq).1]

section Pair

variable {a b : Archive} {membersA membersB : List ZipInfo} {storeA storeB : Store}
  {packageA packageB : InspectedServicePackage}

/-- A file in the index of one package is the same file in the other. -/
theorem lookup_of_files (hA : Inspected tools a membersA packageA) (hB : Inspected tools b membersB packageB)
    (hxA : Extracted tools a membersA storeA) (hxB : Extracted tools b membersB storeB)
    (hno : NoCollision tools a packageA b packageB)
    (hfiles : ∀ file, file ∈ packageA.files → file ∈ packageB.files) {name : Str} {content : Bytes}
    (hun : unindexed name = false) (h : storeA.lookup name = some content) :
    storeB.lookup name = some content := by
  obtain ⟨item, hitem, hname, hcontent⟩ := hxA.mem_store.mp (hxA.lookup_eq_some_iff.mp h)
  obtain ⟨file, hfile, hpath⟩ := hA.indexed.listed item hitem (by rw [hname]; exact hun)
  obtain ⟨itemA, contentA, hmemberA, hcontentA, -, hhashA⟩ := hA.indexed.rows file hfile
  obtain ⟨itemB, contentB, hmemberB, hcontentB, -, hhashB⟩ := hB.indexed.rows file (hfiles file hfile)
  rw [hpath, (member_eq_some_iff hxA.nodup).mpr ⟨hitem, rfl⟩] at hmemberA
  cases hmemberA
  obtain rfl := Option.some.inj (hcontent.symm.trans hcontentA)
  obtain ⟨hmemB, hnameB⟩ := (member_eq_some_iff hxB.nodup).mp hmemberB
  have hhash : tools.sha256 content = tools.sha256 contentB :=
    List.append_cancel_left (hhashA.symm.trans hhashB)
  obtain rfl := hno content contentB
    (.inl ⟨item, ((mem_entries_iff hA.entries_eq).mp hitem).1, hcontent⟩)
    (.inl ⟨itemB, ((mem_entries_iff hB.entries_eq).mp hmemB).1, hcontentB⟩) hhash
  refine hxB.lookup_eq_some_iff.mpr (hxB.mem_store.mpr ⟨itemB, hmemB, ?_, hcontentB⟩)
  rw [hnameB, hpath, hname]

theorem NoCollision.symm (h : NoCollision tools a packageA b packageB) :
    NoCollision tools b packageB a packageA :=
  fun x y hx hy hxy => (h y x hy hx hxy.symm).symm

/-- Where what the index leaves out is the same, everything is. -/
theorem lookup_of_sameLeftOut (hA : Inspected tools a membersA packageA)
    (hB : Inspected tools b membersB packageB) (hxA : Extracted tools a membersA storeA)
    (hxB : Extracted tools b membersB storeB) (hno : NoCollision tools a packageA b packageB)
    (hdigest : packageA.digest = packageB.digest) (hsame : SameLeftOut a b) (name : Str) :
    storeA.lookup name = storeB.lookup name := by
  have hfiles := files_of_digest hno hA.digest hB.digest hdigest
  cases hun : unindexed name with
  | true => rw [hxA.lookup_eq_memberContent, hxB.lookup_eq_memberContent, hsame name hun]
  | false =>
    apply Option.ext
    intro content
    exact ⟨lookup_of_files hA hB hxA hxB hno (fun file => (hfiles file).mp) hun,
      lookup_of_files hB hA hxB hxA hno.symm (fun file => (hfiles file).mpr) hun⟩

end Pair

variable {name : Str} {a b : Archive} {record : InstalledPackageRecord} {storeA storeB : Store}

/-- The text of a member that has been read. -/
theorem metadataText_ok {text : Str} (h : metadataText members name = .ok text) :
    ((member members name).bind ZipInfo.content).bind Utf8.decode = some text := by
  unfold metadataText at h
  split at h
  · cases h
  · rename_i item hitem
    split_ifs at h
    split at h
    · cases h
    · rename_i text' htext
      cases h
      rw [hitem]
      exact htext

theorem metadata_ok {value : Json.Object} (h : metadata tools members name = .ok value) :
    ∃ text, ((member members name).bind ZipInfo.content).bind Utf8.decode = some text ∧
      JsonText.loads tools.floats text = some (.obj value) := by
  obtain ⟨text, htext, h⟩ := bind_eq_ok.mp h
  refine ⟨text, metadataText_ok htext, ?_⟩
  split at h
  · rename_i value' hvalue
    cases h
    exact hvalue
  · cases h

/-- The signature in the text of its member. -/
theorem publisherSignature_ok {value : Json.Object} (h : publisherSignature tools members = .ok value) :
    ∃ raw, ((member members (str "signatures/publisher.sig")).bind ZipInfo.content).bind Utf8.decode =
        some raw ∧
      (JsonText.loads tools.floats (TextOrder.strip raw)).getD
        (.obj [(str "algorithm", .str (str "ed25519")), (str "signature", .str (TextOrder.strip raw))]) =
          .obj value := by
  unfold publisherSignature at h
  split at h
  · cases h
  · rename_i item hitem
    split_ifs at h
    split at h
    · cases h
    · rename_i raw hraw
      refine ⟨raw, by rw [hitem]; exact hraw, ?_⟩
      dsimp only at h
      split at h
      · rename_i value' hvalue
        split at h
        · split_ifs at h
          cases h
          exact hvalue
        · cases h
      · cases h

/-! ## The check of an installed package -/

theorem lookup_filter_name {removed : Str} {files : Store} (h : name ≠ removed) :
    (files.filter fun p => p.1 ≠ removed).lookup name = files.lookup name := by
  induction files with
  | nil => rfl
  | cons p files ih =>
    obtain ⟨key, content⟩ := p
    by_cases hkey : key = removed
    · have hne : (name == key) = false := by
        rw [beq_eq_false_iff_ne, hkey]
        exact h
      rw [List.filter_cons_of_neg (by simp [hkey]), ih, List.lookup_cons, hne]
    · rw [List.filter_cons_of_pos (by simpa using hkey), List.lookup_cons, List.lookup_cons, ih]

theorem mem_keys_iff {files : Store} :
    name ∈ files.map Prod.fst ↔ (files.lookup name).isSome = true := by
  rw [List.lookup_isSome_iff]
  simp only [List.mem_map, beq_iff_eq]
  exact ⟨fun ⟨p, hp, heq⟩ => ⟨p, hp, heq.symm⟩, fun ⟨p, hp, heq⟩ => ⟨p, hp, heq.symm⟩⟩

theorem mem_actualPaths_iff {store : Store} :
    name ∈ actualPaths record (installed a store).files ↔ name ≠ packageArchive ∧
      (store.lookup name).isSome = true ∧
      ((record.trust ≠ some cloudTrust || name ≠ str "ai2apps.json") && !unindexed name) = true := by
  rw [actualPaths, List.mem_filter, mem_keys_iff, ← and_assoc]
  refine and_congr_left fun _ => ?_
  by_cases hname : name = packageArchive
  · rw [hname]
    refine ⟨fun h => ?_, fun h => absurd rfl h.1⟩
    obtain ⟨p, hp, heq⟩ := List.mem_map.mp (mem_keys_iff.mpr h)
    exact absurd heq (of_decide_eq_true (List.mem_filter.mp hp).2)
  · show ((store.filter fun p => p.1 ≠ packageArchive).lookup name).isSome = true ↔ _
    rw [lookup_filter_name hname]
    exact ⟨fun h => ⟨hname, h⟩, fun h => h.2⟩

theorem validateFiles_congr (hfiles : ∀ name, storeA.lookup name = storeB.lookup name) :
    validateFiles tools record (installed a storeA).files =
      validateFiles tools record (installed b storeB).files := by
  have hactual : ∀ name, name ∈ actualPaths record (installed a storeA).files ↔
      name ∈ actualPaths record (installed b storeB).files := by
    intro name
    rw [mem_actualPaths_iff, mem_actualPaths_iff, hfiles]
  have hunchanged : ∀ path, path ∈ actualPaths record (installed a storeA).files →
      unchanged tools record (installed a storeA).files path =
        unchanged tools record (installed b storeB).files path := by
    intro path hpath
    have hne := (mem_actualPaths_iff.mp hpath).1
    have hlookup : (installed a storeA).files.lookup path = (installed b storeB).files.lookup path := by
      rw [installed, installed, lookup_filter_name hne, lookup_filter_name hne, hfiles]
    rw [unchanged, unchanged, hlookup]
  unfold validateFiles
  dsimp only
  by_cases hsame : (∀ path ∈ actualPaths record (installed a storeA).files,
      path ∈ record.files.map PackageFile.path) ∧
    ∀ path ∈ record.files.map PackageFile.path, path ∈ actualPaths record (installed a storeA).files
  · have hall : (record.files.map PackageFile.path).all (unchanged tools record (installed a storeA).files) =
        (record.files.map PackageFile.path).all (unchanged tools record (installed b storeB).files) := by
      rw [Bool.eq_iff_iff, List.all_eq_true, List.all_eq_true]
      exact forall₂_congr fun path hpath => by rw [hunchanged path (hsame.2 path hpath)]
    simp only [hactual] at hsame ⊢
    rw [hall]
  · simp only [hactual] at hsame ⊢
    rw [refuseIf, if_pos hsame]
    rfl

/-- **The same files and the same verdict on the archive are checked alike.** -/
theorem validateInstalled_congr {trust : TrustStore} {contract : ContractInspector}
    (hfiles : ∀ name, storeA.lookup name = storeB.lookup name)
    (harchive : validateArchive tools trust contract record a = validateArchive tools trust contract record b) :
    validateInstalled tools trust contract record (installed a storeA) =
      validateInstalled tools trust contract record (installed b storeB) := by
  unfold validateInstalled
  rw [validateFiles_congr (a := a) (b := b) hfiles]
  show (_ >>= fun _ => validateArchive tools trust contract record a >>= _) =
    (_ >>= fun _ => validateArchive tools trust contract record b >>= _)
  rw [harchive]

section Pair

variable {a b : Archive} {membersA membersB : List ZipInfo} {storeA storeB : Store}
  {packageA packageB : InspectedServicePackage}

/-- Two packages with the same files have one manifest, one attestation and one signature. -/
theorem metadata_congr (hA : Inspected tools a membersA packageA) (hB : Inspected tools b membersB packageB)
    (hcontents : ∀ name, (member membersA name).bind ZipInfo.content =
      (member membersB name).bind ZipInfo.content) :
    packageA.manifest = packageB.manifest ∧ packageA.publisherAttestation = packageB.publisherAttestation ∧
      packageA.signature = packageB.signature := by
  refine ⟨?_, ?_, ?_⟩
  · obtain ⟨text, htext, hmanifest⟩ := hA.manifest
    obtain ⟨text', htext', hmanifest'⟩ := hB.manifest
    have heq := metadataText_ok htext
    rw [hcontents, metadataText_ok htext'] at heq
    cases heq
    exact Except.ok.inj (hmanifest.symm.trans hmanifest')
  · obtain ⟨text, htext, hloads⟩ := metadata_ok hA.publisher
    obtain ⟨text', htext', hloads'⟩ := metadata_ok hB.publisher
    rw [hcontents, htext'] at htext
    cases htext
    exact Json.obj.inj (Option.some.inj (hloads.symm.trans hloads'))
  · obtain ⟨raw, hraw, hvalue⟩ := publisherSignature_ok hA.signature
    obtain ⟨raw', hraw', hvalue'⟩ := publisherSignature_ok hB.signature
    rw [hcontents, hraw'] at hraw
    cases hraw
    exact Json.obj.inj (hvalue.symm.trans hvalue')

/-- Two packages of one digest agree exactly where what the index leaves out does. -/
theorem agreeing_iff (hA : Inspected tools a membersA packageA) (hB : Inspected tools b membersB packageB)
    (hokA : inspect tools a = .ok packageA) (hokB : inspect tools b = .ok packageB)
    (hxA : Extracted tools a membersA storeA) (hxB : Extracted tools b membersB storeB)
    (hno : NoCollision tools a packageA b packageB) (hdigest : packageA.digest = packageB.digest) :
    Agreeing tools a b storeA storeB ↔ SameLeftOut a b := by
  refine ⟨fun h name _ => ?_, fun hsame => ?_⟩
  · rw [← hxA.lookup_eq_memberContent, ← hxB.lookup_eq_memberContent, h.files]
  · have hfiles := lookup_of_sameLeftOut hA hB hxA hxB hno hdigest hsame
    refine ⟨hfiles, fun trust contract record hrecord => validateInstalled_congr hfiles ?_⟩
    obtain ⟨hmanifest, hattestation, hsignature⟩ := metadata_congr hA hB fun name => by
      rw [← hxA.lookup, ← hxB.lookup, hfiles]
    have hverify : ∀ allow, verifySignature trust packageA allow = verifySignature trust packageB allow := by
      intro allow
      unfold verifySignature
      rw [hmanifest, hattestation, hsignature, hdigest]
    unfold validateArchive
    rw [if_neg hrecord, if_neg hrecord, hokA, hokB]
    show (refuseIf (packageA.digest ≠ _) _ >>= fun _ => verifySignature trust packageA _ >>= _) =
      (refuseIf (packageB.digest ≠ _) _ >>= fun _ => verifySignature trust packageB _ >>= _)
    rw [hverify, hdigest]

end Pair

/-- **What the signed index covers.** An accepted archive is covered exactly when nothing is hidden
where the index does not look, and two of one digest agree exactly when they do there. -/
theorem archive_coverage {a b : Archive} {packageA packageB : InspectedServicePackage} {storeA storeB : Store}
    (hA : inspect tools a = .ok packageA) (hB : inspect tools b = .ok packageB)
    (hxA : extract tools a = some storeA) (hxB : extract tools b = some storeB) :
    (Covered tools packageA storeA ↔ Proper (packageA.manifest.protocol = modelWorkerProtocol) a) ∧
      (NoCollision tools a packageA b packageB → packageA.digest = packageB.digest →
        (Agreeing tools a b storeA storeB ↔ SameLeftOut a b)) := by
  obtain ⟨membersA, hinA⟩ := inspect_ok hA
  obtain ⟨membersB, hinB⟩ := inspect_ok hB
  obtain ⟨membersA', hexA⟩ := extract_ok hxA
  obtain ⟨membersB', hexB⟩ := extract_ok hxB
  obtain rfl := Except.ok.inj (hinA.entries_eq.symm.trans hexA.entries_eq)
  obtain rfl := Except.ok.inj (hinB.entries_eq.symm.trans hexB.entries_eq)
  exact ⟨covered_iff hinA hexA, fun hno hdigest => agreeing_iff hinA hinB hA hB hexA hexB hno hdigest⟩

/-! ## A hidden library -/

/-- A member whose header tells its size. -/
def fileMember (name : String) (content : Bytes) : ZipInfo where
  filename := str name
  externalAttr := 0
  fileSize := content.length
  content := some content
  bounded := by
    rintro bytes ⟨⟩
    exact Nat.le_refl _

/-- The manifest of a model worker, and hashes by length. -/
def workerTools : Tools where
  floats := ⟨fun _ => [], fun _ => .nan⟩
  sha256 bytes := List.replicate 61 48 ++
    [48 + bytes.length / 100 % 10, 48 + bytes.length / 10 % 10, 48 + bytes.length % 10]
  readManifest _ := .ok ⟨str "publisher", modelWorkerProtocol, .arr [], some (str "\x7b\x7d")⟩
  isBase64 _ := true
  lower name := name
  holds _ := true

def workerManifest : Bytes := str "id: worker"

def workerSbom : Bytes :=
  JsonText.dumps workerTools.floats (.obj [(str "spdxVersion", .str (str "SPDX-2.3")),
    (str "SPDXID", .str (str "SPDXRef-DOCUMENT")), (str "name", .str (str "worker"))])

def workerFiles : List PackageFile :=
  [⟨str "META/sbom.spdx.json", sha256Prefix ++ workerTools.sha256 workerSbom, workerSbom.length⟩,
    ⟨str "service.yaml", sha256Prefix ++ workerTools.sha256 workerManifest, workerManifest.length⟩]

def workerDigest : Str :=
  sha256Prefix ++ workerTools.sha256
    ((packageValue workerTools ⟨str "publisher", modelWorkerProtocol, .arr [], some (str "\x7b\x7d")⟩
      workerFiles).getD [])

/-- A package of a model worker. -/
def workerArchive : Archive :=
  [fileMember "service.yaml" workerManifest, fileMember "META/sbom.spdx.json" workerSbom,
    fileMember "META/files.json"
      (JsonText.dumps workerTools.floats (.obj [(str "files", .arr (workerFiles.map rowJson))])),
    fileMember "attestations/publisher.json"
      (JsonText.dumps workerTools.floats (.obj [(str "package_digest", .str workerDigest),
        (str "publisher_id", .str (str "publisher"))])),
    fileMember "signatures/publisher.sig" (str "c2lnbmF0dXJl")]

/-- The beginning of a 64-bit Mach-O library. -/
def machLibrary : Bytes := [0xCF, 0xFA, 0xED, 0xFE, 0x0C, 0x00, 0x00, 0x01]

/-- The same package with a library beside the signature. -/
def hiddenArchive : Archive := workerArchive ++ [fileMember "signatures/libworker.dylib" machLibrary]

/-- Whether an archive is accepted as a model worker with this digest. -/
def acceptsWorker (tools : Tools) (archive : Archive) (digest : Str) : Bool :=
  match inspect tools archive with
  | .ok package => package.manifest.protocol = modelWorkerProtocol && package.digest = digest
  | .error _ => false

theorem exists_of_acceptsWorker {digest : Str} (h : acceptsWorker tools archive digest = true) :
    ∃ package, inspect tools archive = .ok package ∧
      package.manifest.protocol = modelWorkerProtocol ∧ package.digest = digest := by
  unfold acceptsWorker at h
  split at h
  · rename_i package hpackage
    simp only [Bool.and_eq_true, decide_eq_true_eq] at h
    exact ⟨package, hpackage, h⟩
  · cases h

theorem worker_accepted : acceptsWorker workerTools workerArchive workerDigest = true := by decide +kernel

theorem hidden_accepted : acceptsWorker workerTools hiddenArchive workerDigest = true := by decide +kernel

theorem worker_extracted : ∃ store, extract workerTools workerArchive = some store :=
  Option.isSome_iff_exists.mp (by decide +kernel)

theorem hidden_extracted : ∃ store, extract workerTools hiddenArchive = some store ∧
    (str "signatures/libworker.dylib", machLibrary) ∈ store := by
  have hmem : ((extract workerTools hiddenArchive).getD []).contains
      (str "signatures/libworker.dylib", machLibrary) = true := by decide +kernel
  cases hstore : extract workerTools hiddenArchive with
  | none =>
    rw [hstore] at hmem
    exact absurd hmem Bool.false_ne_true
  | some store =>
    rw [hstore] at hmem
    exact ⟨store, rfl, List.contains_iff_mem.mp hmem⟩

/-- The bytes that inspecting an archive hashes. -/
def hashedBytes (tools : Tools) (archive : Archive) (package : InspectedServicePackage) : List Bytes :=
  archive.filterMap ZipInfo.content ++ (packageValue tools package.manifest package.files).toList

theorem mem_hashedBytes {package : InspectedServicePackage} {bytes : Bytes}
    (h : Hashed tools archive package bytes) : bytes ∈ hashedBytes tools archive package := by
  rcases h with ⟨item, hitem, hcontent⟩ | hvalue
  · exact List.mem_append_left _ (List.mem_filterMap.mpr ⟨item, hitem, hcontent⟩)
  · exact List.mem_append_right _ (Option.mem_toList.mpr hvalue)

/-- Whether what inspecting two archives hashes can be told apart by the hashes. -/
def apart (tools : Tools) (a b : Archive) : Bool :=
  match inspect tools a, inspect tools b with
  | .ok packageA, .ok packageB =>
    (hashedBytes tools a packageA).all fun x => (hashedBytes tools b packageB).all fun y =>
      tools.sha256 x != tools.sha256 y || x == y
  | _, _ => false

theorem noCollision_of_apart (h : apart tools a b = true) (hA : inspect tools a = .ok packageA)
    (hB : inspect tools b = .ok packageB) : NoCollision tools a packageA b packageB := by
  rw [apart, hA, hB] at h
  intro x y hx hy hsame
  have hxy := List.all_eq_true.mp (List.all_eq_true.mp h x (mem_hashedBytes hx)) y (mem_hashedBytes hy)
  rw [Bool.or_eq_true, bne_iff_ne, beq_iff_eq] at hxy
  exact hxy.resolve_left (not_not.mpr hsame)

theorem worker_apart : apart workerTools workerArchive hiddenArchive = true := by decide +kernel

/-- The package and the one with the library have one digest and are both accepted. -/
theorem archive_coverage_worker : ∃ packageA packageB storeA storeB,
    inspect workerTools workerArchive = .ok packageA ∧ inspect workerTools hiddenArchive = .ok packageB ∧
      packageA.digest = packageB.digest ∧
      (Covered workerTools packageA storeA ↔
        Proper (packageA.manifest.protocol = modelWorkerProtocol) workerArchive) ∧
      (Agreeing workerTools workerArchive hiddenArchive storeA storeB ↔
        SameLeftOut workerArchive hiddenArchive) := by
  obtain ⟨packageA, hA, -, hdigestA⟩ := exists_of_acceptsWorker worker_accepted
  obtain ⟨packageB, hB, -, hdigestB⟩ := exists_of_acceptsWorker hidden_accepted
  obtain ⟨storeA, hxA⟩ := worker_extracted
  obtain ⟨storeB, hxB, -⟩ := hidden_extracted
  obtain ⟨hcovered, hagreeing⟩ := archive_coverage hA hB hxA hxB
  have hdigest := hdigestA.trans hdigestB.symm
  exact ⟨packageA, packageB, storeA, storeB, hA, hB, hdigest, hcovered,
    hagreeing (noCollision_of_apart worker_apart hA hB) hdigest⟩

/-- **An accepted model worker extracts a native library that its index does not list.** -/
theorem hidden_library : ¬ ∀ (tools : Tools) (archive : Archive) (package : InspectedServicePackage)
    (store : Store), inspect tools archive = .ok package → extract tools archive = some store →
      (∀ p ∈ store, signedMetadata p.1 = true ∨ ∃ file ∈ package.files, file.path = p.1 ∧
        file.contentHash = sha256Prefix ++ tools.sha256 p.2 ∧ file.sizeBytes = p.2.length) ∧
      (package.manifest.protocol = modelWorkerProtocol → ∀ p ∈ store, nativeMagic p.2 = false) := by
  intro h
  obtain ⟨package, hpackage, hworker, -⟩ := exists_of_acceptsWorker hidden_accepted
  obtain ⟨store, hstore, hmem⟩ := hidden_extracted
  have hmagic : nativeMagic machLibrary = false :=
    (h workerTools hiddenArchive package store hpackage hstore).2 hworker _ hmem
  revert hmagic
  decide

end AI2Apps.Packages
