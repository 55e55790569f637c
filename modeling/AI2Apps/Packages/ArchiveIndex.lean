import AI2Apps.Lib.JsonRoundTrip
import AI2Apps.Packages.Installed

/-!
# What an accepted archive's index says

* `mem_entries_iff`, `member_eq_some_iff`: the files of an archive, and the one of a name.
* `Indexed`, `verifyIndex_ok`: a verified index lists the files outside the exclusions, each
  with its hash and the size in its header.
* `inspect_ok`: what inspection has checked.
* `files_of_digest`: packages of one digest have one index.
-/

namespace AI2Apps.Packages

variable {tools : Tools} {archive : Archive} {members : List ZipInfo}

theorem bind_eq_ok {α β : Type} {x : Except Refusal α} {f : α → Except Refusal β} {b : β} :
    (x >>= f) = .ok b ↔ ∃ a, x = .ok a ∧ f a = .ok b := by
  cases x with
  | error e => exact ⟨nofun, fun ⟨_, h, _⟩ => nomatch h⟩
  | ok a => exact ⟨fun h => ⟨a, rfl, h⟩, fun ⟨_, h, hf⟩ => Except.ok.inj h ▸ hf⟩

/-- A check that has not raised. -/
theorem refuseIf_eq_ok {p : Prop} [Decidable p] {e : Refusal} {u : Unit} :
    refuseIf p e = .ok u ↔ ¬ p := by
  unfold refuseIf
  by_cases h : p
  · rw [if_pos h]
    exact ⟨nofun, fun hp => absurd h hp⟩
  · rw [if_neg h]
    exact ⟨fun _ => h, fun _ => rfl⟩

/-! ## The members -/

theorem entriesFrom_ok {acc result : List ZipInfo} (hacc : (acc.map ZipInfo.filename).Nodup)
    (h : entriesFrom acc archive = .ok result) :
    result = acc ++ archive.filter (fun item => !item.isDir) ∧ (result.map ZipInfo.filename).Nodup := by
  induction archive generalizing acc with
  | nil =>
    cases h
    exact ⟨(List.append_nil _).symm, hacc⟩
  | cons item rest ih =>
    rw [entriesFrom] at h
    by_cases hdir : item.isDir = true
    · rw [if_pos hdir] at h
      obtain ⟨heq, hnodup⟩ := ih hacc h
      exact ⟨by rw [heq, List.filter_cons_of_neg (by simp [hdir])], hnodup⟩
    · rw [if_neg hdir] at h
      split_ifs at h with hunsafe hmem hlink hsize
      have hnodup' : ((acc ++ [item]).map ZipInfo.filename).Nodup := by
        rw [List.map_append, List.nodup_append]
        exact ⟨hacc, List.nodup_singleton _, fun a ha b hb hab =>
          hmem (by rw [List.mem_singleton.mp hb] at hab; exact hab ▸ ha)⟩
      obtain ⟨heq, hnodup⟩ := ih hnodup' h
      refine ⟨?_, hnodup⟩
      rw [heq, List.filter_cons_of_pos (by simp [hdir]), List.append_assoc]
      rfl

/-- The files of an archive are its members that are not directories, and no name is twice. -/
theorem entries_ok (h : entries archive = .ok members) :
    members = archive.filter (fun item => !item.isDir) ∧ (members.map ZipInfo.filename).Nodup := by
  obtain ⟨members', hfrom, h⟩ := bind_eq_ok.mp h
  obtain ⟨_, -, h⟩ := bind_eq_ok.mp h
  cases h
  have hnil : (([] : List ZipInfo).map ZipInfo.filename).Nodup := List.nodup_nil
  have hok := entriesFrom_ok hnil hfrom
  rwa [List.nil_append] at hok

theorem mem_entries_iff (h : entries archive = .ok members) {item : ZipInfo} :
    item ∈ members ↔ item ∈ archive ∧ item.isDir = false := by
  rw [(entries_ok h).1, List.mem_filter, Bool.not_eq_true']

/-- The member of a name. -/
theorem member_eq_some_iff (hnodup : (members.map ZipInfo.filename).Nodup) {name : Str} {item : ZipInfo} :
    member members name = some item ↔ item ∈ members ∧ item.filename = name := by
  constructor
  · intro h
    unfold member at h
    exact ⟨List.mem_of_find?_eq_some h, of_decide_eq_true (List.find?_some h :)⟩
  · rintro ⟨hmem, rfl⟩
    cases hfind : member members item.filename with
    | none =>
      have := List.find?_eq_none.mp hfind item hmem
      exact absurd (decide_eq_true rfl) this
    | some other =>
      unfold member at hfind
      have hname : other.filename = item.filename := of_decide_eq_true (List.find?_some hfind :)
      exact congrArg some (List.inj_on_of_nodup_map hnodup (List.mem_of_find?_eq_some hfind) hmem hname)

/-! ## The index -/

/-- A row of the index is about a member, its hash and the size in its header. -/
def RowOf (tools : Tools) (members : List ZipInfo) (file : PackageFile) : Prop :=
  ∃ item content, member members file.path = some item ∧ item.content = some content ∧
    item.fileSize = file.sizeBytes ∧ file.contentHash = sha256Prefix ++ tools.sha256 content

theorem indexRow_ok {indexed : List PackageFile} {value : Json} {file : PackageFile}
    (h : indexRow tools members indexed value = .ok file) :
    RowOf tools members file ∧ file.path ∉ indexed.map PackageFile.path := by
  unfold indexRow at h
  split at h
  · split at h
    · rename_i row path digest size hpath hdigest hsize
      split_ifs at h with hcheck
      split at h
      · cases h
      · rename_i item hitem
        split_ifs at h with hfileSize
        split at h
        · cases h
        · rename_i content hcontent
          split_ifs at h with hhash
          cases h
          rw [not_not] at hfileSize
          have hsize' : item.fileSize = size.toNat := by omega
          exact ⟨⟨item, content, hitem, hcontent, hsize', rfl⟩, fun hmem => hcheck (.inl hmem)⟩
    · cases h
  · cases h

theorem indexRows_ok {indexed files : List PackageFile} {values : List Json}
    (hrows : ∀ file ∈ indexed, RowOf tools members file) (hnodup : (indexed.map PackageFile.path).Nodup)
    (h : indexRows tools members indexed values = .ok files) :
    (∀ file ∈ files, RowOf tools members file) ∧ (files.map PackageFile.path).Nodup := by
  induction values generalizing indexed with
  | nil =>
    cases h
    exact ⟨hrows, hnodup⟩
  | cons value values ih =>
    rw [indexRows] at h
    obtain ⟨file, hrow, h⟩ := bind_eq_ok.mp h
    obtain ⟨hof, hnew⟩ := indexRow_ok hrow
    refine ih (fun f hf => ?_) ?_ h
    · rcases List.mem_append.mp hf with hf | hf
      · exact hrows f hf
      · exact List.mem_singleton.mp hf ▸ hof
    · rw [List.map_append, List.nodup_append]
      exact ⟨hnodup, List.nodup_singleton _, fun a ha b hb hab =>
        hnew (by rw [List.mem_singleton.mp hb] at hab; exact hab ▸ ha)⟩

/-- What a verified index says of the members. -/
structure Indexed (tools : Tools) (members : List ZipInfo) (files : List PackageFile) : Prop where
  rows : ∀ file ∈ files, RowOf tools members file
  listed : ∀ item ∈ members, unindexed item.filename = false → ∃ file ∈ files, file.path = item.filename
  included : ∀ file ∈ files, unindexed file.path = false

theorem mem_sortedByPath {files : List PackageFile} {file : PackageFile} :
    file ∈ sortedByPath files ↔ file ∈ files :=
  List.mem_insertionSort _

/-- **A verified index covers what is not excluded, and nothing else.** -/
theorem verifyIndex_ok {raw : Json.Object} {files : List PackageFile}
    (h : verifyIndex tools members raw = .ok files) : Indexed tools members files := by
  unfold verifyIndex at h
  split at h
  · obtain ⟨indexed, hrows, h⟩ := bind_eq_ok.mp h
    obtain ⟨_, hsame, h⟩ := bind_eq_ok.mp h
    cases h
    rw [refuseIf_eq_ok, not_not] at hsame
    obtain ⟨hof, -⟩ := indexRows_ok (fun _ hf => absurd hf List.not_mem_nil) List.nodup_nil hrows
    refine ⟨fun file hf => hof file (mem_sortedByPath.mp hf), fun item hitem hun => ?_, fun file hf => ?_⟩
    · have hexpected : item.filename ∈ expectedPaths members :=
        List.mem_filter.mpr ⟨List.mem_map_of_mem hitem, by simp [hun]⟩
      obtain ⟨file, hfile, hpath⟩ := List.mem_map.mp (hsame.2 _ hexpected)
      exact ⟨file, mem_sortedByPath.mpr hfile, hpath⟩
    · have hexpected := hsame.1 file (mem_sortedByPath.mp hf)
      simpa using (List.mem_filter.mp hexpected).2
  · cases h

/-! ## Inspection -/

/-- What inspection has checked. -/
structure Inspected (tools : Tools) (archive : Archive) (members : List ZipInfo)
    (package : InspectedServicePackage) : Prop where
  entries_eq : entries archive = .ok members
  manifest : ∃ text, metadataText members (str "service.yaml") = .ok text ∧
    tools.readManifest text = .ok package.manifest
  indexed : Indexed tools members package.files
  native : validateNativeArtifacts tools members package.manifest package.files package.sbom = .ok ()
  digest : packageDigest tools package.manifest package.files = .ok package.digest
  publisher : metadata tools members publisherJson = .ok package.publisherAttestation
  signature : publisherSignature tools members = .ok package.signature

theorem inspect_ok {package : InspectedServicePackage} (h : inspect tools archive = .ok package) :
    ∃ members, Inspected tools archive members package := by
  obtain ⟨members, hentries, h⟩ := bind_eq_ok.mp h
  obtain ⟨text, htext, h⟩ := bind_eq_ok.mp h
  obtain ⟨manifest, hmanifest, h⟩ := bind_eq_ok.mp h
  obtain ⟨_, -, h⟩ := bind_eq_ok.mp h
  obtain ⟨index, -, h⟩ := bind_eq_ok.mp h
  obtain ⟨files, hfiles, h⟩ := bind_eq_ok.mp h
  obtain ⟨sbom, -, h⟩ := bind_eq_ok.mp h
  obtain ⟨_, -, h⟩ := bind_eq_ok.mp h
  obtain ⟨_, hnative, h⟩ := bind_eq_ok.mp h
  obtain ⟨digest, hdigest, h⟩ := bind_eq_ok.mp h
  obtain ⟨publisher, hpublisher, h⟩ := bind_eq_ok.mp h
  obtain ⟨signature, hsignature, h⟩ := bind_eq_ok.mp h
  obtain ⟨bundled, -, h⟩ := bind_eq_ok.mp h
  obtain ⟨_, -, h⟩ := bind_eq_ok.mp h
  obtain ⟨_, -, h⟩ := bind_eq_ok.mp h
  cases h
  exact ⟨members, hentries, ⟨text, htext, hmanifest⟩, verifyIndex_ok hfiles, hnative, hdigest,
    hpublisher, hsignature⟩

/-! ## The digest -/

/-- The row that stands for a file in the text that is hashed. -/
def rowJson (file : PackageFile) : Json :=
  .obj [(str "path", .str file.path), (str "sha256", .str file.contentHash), (str "size", .int file.sizeBytes)]

theorem rowJson_injective : Function.Injective rowJson := by
  rintro ⟨path, hash, size⟩ ⟨path', hash', size'⟩ h
  simp only [rowJson, Json.obj.injEq, List.cons.injEq, Prod.mk.injEq, Json.str.injEq, Json.int.injEq,
    Nat.cast_inj, true_and, and_true] at h
  obtain ⟨rfl, rfl, rfl⟩ := h
  rfl

theorem plain_rowJson (file : PackageFile) : (rowJson file).plain = true := by
  have h₁ : str "path" ≠ str "sha256" := by decide +kernel
  have h₂ : str "path" ≠ str "size" := by decide +kernel
  have h₃ : str "sha256" ≠ str "size" := by decide +kernel
  simp [rowJson, Json.plain, Json.plainMembers, Json.keys, h₁, h₂, h₃]

theorem plainItems_map_rowJson (files : List PackageFile) : Json.plainItems (files.map rowJson) = true := by
  induction files with
  | nil => rfl
  | cons file files ih => rw [List.map_cons, Json.plainItems, plain_rowJson, ih, Bool.and_self]

/-- The text of an index is one line. -/
theorem ten_notMem_indexText {files : List PackageFile} {bytes : Bytes}
    (h : indexText tools files = some bytes) : 10 ∉ bytes := by
  intro hmem
  have hten : (10 : ℕ) ∈ JsonText.dumps tools.floats (.arr ((sortedByPath files).map rowJson)) :=
    (Utf8.lt_of_mem_encode h hmem).2 (by decide)
  have hplain : (Json.arr ((sortedByPath files).map rowJson)).plain = true := by
    rw [Json.plain]
    exact plainItems_map_rowJson _
  exact absurd (JsonText.le_of_mem_dumps tools.floats hplain hten) (by decide)

/-- One text of an index is one index. -/
theorem files_of_indexText {files files' : List PackageFile} {bytes : Bytes}
    (h : indexText tools files = some bytes) (h' : indexText tools files' = some bytes) :
    sortedByPath files = sortedByPath files' := by
  have htext := (Utf8.decode_encode h).symm.trans (Utf8.decode_encode h')
  have hplain : ∀ files : List PackageFile, (Json.arr (files.map rowJson)).plain = true := by
    intro files
    rw [Json.plain]
    exact plainItems_map_rowJson files
  have hjson := JsonText.dumps_injOn tools.floats (hplain _) (hplain _) (Option.some.inj htext)
  exact List.map_injective_iff.mpr rowJson_injective (Json.arr.inj hjson)

/-- What follows the last line break is determined. -/
theorem eq_of_append_ten {a b l l' : Bytes} (hl : 10 ∉ l) (hl' : 10 ∉ l')
    (h : a ++ [10] ++ l = b ++ [10] ++ l') : l = l' := by
  have htail : ∀ (a l : Bytes), 10 ∉ l → (a ++ [10] ++ l).reverse.takeWhile (· ≠ 10) = l.reverse := by
    intro a l hl
    rw [List.reverse_append, List.takeWhile_append_of_pos (by
      intro x hx
      exact decide_eq_true fun heq => hl (heq ▸ List.mem_reverse.mp hx)), List.reverse_append]
    show l.reverse ++ (10 :: a.reverse).takeWhile (· ≠ 10) = l.reverse
    rw [List.takeWhile_cons_of_neg (by simp), List.append_nil]
  have heq := (htail a l hl).symm.trans ((congrArg _ (congrArg List.reverse h)).trans (htail b l' hl'))
  exact List.reverse_injective heq

/-- The bytes that inspecting an archive hashes. -/
def Hashed (tools : Tools) (archive : Archive) (package : InspectedServicePackage) (bytes : Bytes) : Prop :=
  (∃ item ∈ archive, item.content = some bytes) ∨
    packageValue tools package.manifest package.files = some bytes

/-- No two of the bytes that inspecting two archives hashes have one hash. -/
def NoCollision (tools : Tools) (a : Archive) (package : InspectedServicePackage) (b : Archive)
    (package' : InspectedServicePackage) : Prop :=
  ∀ x y, Hashed tools a package x → Hashed tools b package' y → tools.sha256 x = tools.sha256 y → x = y

theorem packageDigest_ok {manifest : Manifest} {files : List PackageFile} {digest : Str}
    (h : packageDigest tools manifest files = .ok digest) :
    ∃ value, packageValue tools manifest files = some value ∧ digest = sha256Prefix ++ tools.sha256 value := by
  unfold packageDigest at h
  split at h
  · cases h
  · rename_i value hvalue
    cases h
    exact ⟨value, hvalue, rfl⟩

/-- **Packages of one digest have one index.** -/
theorem files_of_digest {a b : Archive} {package package' : InspectedServicePackage}
    (hno : NoCollision tools a package b package')
    (h : packageDigest tools package.manifest package.files = .ok package.digest)
    (h' : packageDigest tools package'.manifest package'.files = .ok package'.digest)
    (hdigest : package.digest = package'.digest) (file : PackageFile) :
    file ∈ package.files ↔ file ∈ package'.files := by
  obtain ⟨value, hvalue, heq⟩ := packageDigest_ok h
  obtain ⟨value', hvalue', heq'⟩ := packageDigest_ok h'
  rw [heq, heq'] at hdigest
  obtain rfl := hno value value' (.inr hvalue) (.inr hvalue') (List.append_cancel_left hdigest)
  obtain ⟨canonical, -, hrest⟩ := Option.bind_eq_some_iff.mp hvalue
  obtain ⟨index, hindex, hrest⟩ := Option.bind_eq_some_iff.mp hrest
  obtain ⟨canonical', -, hrest'⟩ := Option.bind_eq_some_iff.mp hvalue'
  obtain ⟨index', hindex', hrest'⟩ := Option.bind_eq_some_iff.mp hrest'
  obtain rfl := eq_of_append_ten (ten_notMem_indexText hindex) (ten_notMem_indexText hindex')
    ((Option.some.inj hrest).trans (Option.some.inj hrest').symm)
  rw [← mem_sortedByPath, files_of_indexText hindex hindex', mem_sortedByPath]

end AI2Apps.Packages
