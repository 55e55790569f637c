import AI2Apps.Packages.ResolverWalk

/-!
# The packages that are picked

A package picked for a dependency serves it.  Where digests determine what packages contain, it
is the first record of its digest, so that what is picked depends on the order of the candidates
only where two candidates of one digest differ.

* `Fits`, `pick_eq_some`: what a package picked has.
* `DigestsDetermine`, `firstRecord_of_pick`: records of one digest.
* `Met`: the packages that a walk from the root comes to.
* `NoTwins`, `choose_reorder`: the order of the candidates.
-/

namespace AI2Apps.Packages.Resolver

variable {ν ρ : Type} {packaging : Packaging ν} {r : Repository ρ}
variable {package chosen : Package ρ} {dependency : ServiceDependency}

/-! ## The records that fit -/

/-- A record that a dependency of a package can be bound to. -/
structure Fits (packaging : Packaging ν) (package : Package ρ) (dependency : ServiceDependency)
    (item : Package ρ) : Prop where
  serviceKey : item.serviceKey = dependency.serviceKey
  admitted : packaging.admits (specifier dependency.versionSpec) item.version = true
  provides : provides (requiredCapabilities package dependency.serviceKey) item

/-- The records of a list that fit, in order. -/
def fitting (packaging : Packaging ν) (package : Package ρ) (dependency : ServiceDependency)
    (items : List (Package ρ)) : List (Package ρ) :=
  ((items.filter fun item => item.serviceKey = dependency.serviceKey).filter fun item =>
    packaging.admits (specifier dependency.versionSpec) item.version).filter fun item =>
    provides (requiredCapabilities package dependency.serviceKey) item

theorem mem_fitting {item : Package ρ} {items : List (Package ρ)} :
    item ∈ fitting packaging package dependency items ↔
      item ∈ items ∧ Fits packaging package dependency item := by
  rw [fitting, List.mem_filter, List.mem_filter, List.mem_filter, decide_eq_true_iff,
    decide_eq_true_iff]
  constructor
  · rintro ⟨⟨⟨hmem, hkey⟩, hadmits⟩, hprovides⟩
    exact ⟨hmem, hkey, hadmits, hprovides⟩
  · rintro ⟨hmem, hkey, hadmits, hprovides⟩
    exact ⟨⟨⟨hmem, hkey⟩, hadmits⟩, hprovides⟩

theorem fitting_append (xs ys : List (Package ρ)) :
    fitting packaging package dependency (xs ++ ys) =
      fitting packaging package dependency xs ++ fitting packaging package dependency ys := by
  unfold fitting
  rw [List.filter_append, List.filter_append, List.filter_append]

theorem fitting_cons {item : Package ρ} (h : Fits packaging package dependency item)
    (ys : List (Package ρ)) :
    fitting packaging package dependency (item :: ys) =
      item :: fitting packaging package dependency ys := by
  unfold fitting
  rw [List.filter_cons_of_pos (by simpa using h.serviceKey), List.filter_cons_of_pos (by simpa using h.admitted),
    List.filter_cons_of_pos (by simpa using h.provides)]

/-- Packages with the same service, version and manifest. -/
structure SameContent (p q : Package ρ) : Prop where
  serviceKey : p.serviceKey = q.serviceKey
  version : p.version = q.version
  manifest : p.manifest = q.manifest

theorem Fits.of_sameContent {p q : Package ρ} (h : Fits packaging package dependency p)
    (hsame : SameContent p q) : Fits packaging package dependency q where
  serviceKey := hsame.serviceKey ▸ h.serviceKey
  admitted := hsame.version ▸ h.admitted
  provides capability hmem := by
    rw [packageCapabilities, ← hsame.manifest]
    exact h.provides capability hmem

/-! ## Another order of the candidates -/

/-- The candidates in another order. -/
def Repository.reorder (r : Repository ρ) (candidates : List (Inspected ρ)) : Repository ρ :=
  { r with candidates }

variable {candidates : List (Inspected ρ)}

theorem records_reorder (hperm : candidates.Perm r.candidates) :
    (r.reorder candidates).records.Perm r.records :=
  ((hperm.cons r.root).map _).append_right _

theorem versionChoices_reorder (hperm : candidates.Perm r.candidates) :
    (versionChoices packaging (r.reorder candidates) dependency).Perm
      (versionChoices packaging r dependency) :=
  ((records_reorder hperm).filter _).filter _

theorem fitting_reorder (hperm : candidates.Perm r.candidates) :
    (fitting packaging package dependency (r.reorder candidates).records).Perm
      (fitting packaging package dependency r.records) :=
  (((records_reorder hperm).filter _).filter _).filter _

/-! ## The package picked -/

variable [LinearOrder ν]

theorem pick_eq_some :
    pick packaging r package dependency = some chosen ↔
      StableSort.IsFirstMax (rank packaging) (fitting packaging package dependency r.records) chosen :=
  StableSort.head?_sortedDesc

theorem pick_eq_none :
    pick packaging r package dependency = none ↔ fitting packaging package dependency r.records = [] := by
  rw [pick, List.head?_eq_none_iff, choices, StableSort.sortedDesc_eq_nil]
  rfl

theorem mem_of_pick (h : pick packaging r package dependency = some chosen) :
    chosen ∈ r.records ∧ Fits packaging package dependency chosen :=
  mem_fitting.mp (pick_eq_some.mp h).mem

theorem choose_eq_some :
    choose packaging r package dependency = .ok (some chosen) ↔
      pick packaging r package dependency = some chosen := by
  unfold choose
  rcases pick packaging r package dependency with _ | c
  · dsimp only
    split_ifs <;> simp
  · simp

theorem optional_of_choose (h : choose packaging r package dependency = .ok none) :
    dependency.optional = true := by
  unfold choose at h
  dsimp only at h
  split at h
  · cases h
  · split_ifs at h with hoptional
    exact hoptional

theorem serves_choose : Serves (choose packaging r) := fun _ _ _ h =>
  (mem_of_pick (choose_eq_some.mp h)).2.serviceKey

/-- The services that can be bound. -/
theorem bounded_choose : Bounded (choose packaging r) (r.records.map Package.serviceKey) where
  serves := serves_choose
  mem _ _ _ h := List.mem_map_of_mem (mem_of_pick (choose_eq_some.mp h)).1
  ne package dependency h := by
    unfold choose at h
    dsimp only at h
    split at h
    · cases h
    · split_ifs at h <;> cases h

/-! ## Records of one digest -/

/-- The digest is a hash of the manifest and the file index, which are what a record is made of. -/
def DigestsDetermine (r : Repository ρ) : Prop :=
  ∀ p ∈ r.records, ∀ q ∈ r.records, p.digest = q.digest → SameContent p q

/-- The first record of a digest. -/
def firstRecord (r : Repository ρ) (digest : Str) : Option (Package ρ) :=
  r.records.find? fun p => p.digest = digest

theorem root_mem_records : .inspected r.root ∈ r.records := by
  rw [Repository.records, List.map_cons]
  exact List.mem_cons_self ..

theorem firstRecord_root : firstRecord r r.root.digest = some (.inspected r.root) := by
  rw [firstRecord, Repository.records, List.map_cons, List.cons_append, List.find?_cons_of_pos]
  exact decide_eq_true rfl

/-- **A package picked is the first record of its digest.** -/
theorem firstRecord_of_pick (hdigests : DigestsDetermine r)
    (h : pick packaging r package dependency = some chosen) :
    firstRecord r chosen.digest = some chosen := by
  have hmax := pick_eq_some.mp h
  obtain ⟨hmem, hfits⟩ := mem_of_pick h
  rcases hfirst : firstRecord r chosen.digest with _ | b
  · have hnone := List.find?_eq_none.mp hfirst chosen hmem
    exact absurd (decide_eq_true rfl) hnone
  · obtain ⟨hb, xs, ys, hrecords, hxs⟩ := List.find?_eq_some_iff_append.mp hfirst
    have hbmem : b ∈ r.records := by
      rw [hrecords]
      exact List.mem_append_right _ (List.mem_cons_self ..)
    have hdigest : b.digest = chosen.digest := of_decide_eq_true hb
    have hsame := hdigests b hbmem chosen hmem hdigest
    have hrank : rank packaging b = rank packaging chosen := by
      rw [rank, rank, hsame.version, hdigest]
    have hbfits : Fits packaging package dependency b :=
      hfits.of_sameContent (hdigests chosen hmem b hbmem hdigest.symm)
    -- The records before the first of the digest are of other digests, so they rank lower.
    have hbmax : StableSort.IsFirstMax (rank packaging) (fitting packaging package dependency r.records) b := by
      have hfit := congrArg (fitting packaging package dependency) hrecords
      rw [fitting_append, fitting_cons hbfits] at hfit
      refine ⟨_, _, hfit, fun u hu => ?_, fun v hv => ?_⟩
      · have hle : rank packaging u ≤ rank packaging chosen :=
          hmax.le (hfit ▸ List.mem_append_left _ hu)
        refine hrank ▸ lt_of_le_of_ne hle fun heq => ?_
        have hu' := hxs u (mem_fitting.mp hu).1
        have hd : u.digest = chosen.digest := congrArg (fun x => (ofLex x).2) heq
        rw [hd] at hu'
        simp at hu'
      · exact hrank ▸ hmax.le (hfit ▸ List.mem_append_right _ (List.mem_cons_of_mem _ hv))
    rw [hbmax.unique hmax]

/-! ## The packages met -/

/-- The packages that a walk from the root comes to. -/
inductive Met (packaging : Packaging ν) (r : Repository ρ) : Package ρ → Prop
  | root : Met packaging r (.inspected r.root)
  | pick {package : Package ρ} {dependency : ServiceDependency} {chosen : Package ρ} :
      Met packaging r package → dependency ∈ dependencies package →
      pick packaging r package dependency = some chosen → Met packaging r chosen

theorem Met.mem (h : Met packaging r package) : package ∈ r.records := by
  cases h with
  | root => exact root_mem_records
  | pick _ _ hpick => exact (mem_of_pick hpick).1

theorem Met.firstRecord (hdigests : DigestsDetermine r) (h : Met packaging r package) :
    firstRecord r package.digest = some package := by
  cases h with
  | root => exact firstRecord_root
  | pick _ _ hpick => exact firstRecord_of_pick hdigests hpick

/-! ## What is picked in another order -/

/-- No candidate has the digest of a package met and differs from it.  The root is met as it is. -/
def NoTwins (packaging : Packaging ν) (r : Repository ρ) : Prop :=
  ∀ package, Met packaging r package → package ≠ .inspected r.root →
    ∀ candidate ∈ r.candidates, candidate.digest = package.digest → .inspected candidate = package

theorem DigestsDetermine.reorder (hperm : candidates.Perm r.candidates) (h : DigestsDetermine r) :
    DigestsDetermine (r.reorder candidates) := fun p hp q hq =>
  h p ((records_reorder hperm).mem_iff.mp hp) q ((records_reorder hperm).mem_iff.mp hq)

/-- The first record of a digest is the root, a candidate or active. -/
theorem firstRecord_eq (r : Repository ρ) (digest : Str) :
    firstRecord r digest =
      if r.root.digest = digest then some (.inspected r.root)
      else ((r.candidates.find? fun c => c.digest = digest).map .inspected).or
        ((r.rows.filter fun row => row.status = .active).map Package.installed |>.find?
          fun p => p.digest = digest) := by
  rw [firstRecord, Repository.records, List.map_cons, List.cons_append]
  split_ifs with h
  · exact List.find?_cons_of_pos (decide_eq_true h)
  · have hroot : ¬ decide ((Package.inspected r.root).digest = digest) = true := fun hd =>
      h (of_decide_eq_true hd)
    rw [List.find?_cons_of_neg (p := fun q : Package ρ => decide (q.digest = digest)) hroot,
      List.find?_append, List.find?_map]
    rfl

/-- The first record of a digest does not change with the order of the candidates, if the
candidates of that digest are the same. -/
theorem firstRecord_reorder (hperm : candidates.Perm r.candidates) {p : Package ρ}
    (hp : firstRecord r p.digest = some p)
    (htwins : p ≠ .inspected r.root →
      ∀ candidate ∈ r.candidates, candidate.digest = p.digest → .inspected candidate = p) :
    firstRecord (r.reorder candidates) p.digest = some p := by
  rw [firstRecord_eq] at hp ⊢
  show (if r.root.digest = p.digest then some (.inspected r.root)
    else ((candidates.find? fun c => c.digest = p.digest).map .inspected).or _) = some p
  split_ifs at hp ⊢ with hroot
  · exact hp
  · have hne : p ≠ .inspected r.root := by
      rintro rfl
      exact hroot rfl
    rcases hfind : candidates.find? (fun c => c.digest = p.digest) with _ | c
    · have hnone : r.candidates.find? (fun c => c.digest = p.digest) = none := by
        rw [List.find?_eq_none] at hfind ⊢
        exact fun c hc => hfind c (hperm.mem_iff.mpr hc)
      rw [hnone] at hp
      rw [hfind]
      exact hp
    · rw [hfind]
      have hmem := hperm.mem_iff.mp (List.mem_of_find?_eq_some hfind)
      have hdigest : c.digest = p.digest := of_decide_eq_true (List.find?_some hfind :)
      exact congrArg some (htwins hne c hmem hdigest)

theorem pick_reorder (hperm : candidates.Perm r.candidates) (hdigests : DigestsDetermine r)
    (htwins : ∀ chosen, pick packaging r package dependency = some chosen →
      chosen ≠ .inspected r.root →
      ∀ candidate ∈ r.candidates, candidate.digest = chosen.digest → .inspected candidate = chosen) :
    pick packaging (r.reorder candidates) package dependency = pick packaging r package dependency := by
  have hfit : (fitting packaging package dependency (r.reorder candidates).records).Perm
      (fitting packaging package dependency r.records) := fitting_reorder hperm
  rcases hpick : pick packaging r package dependency with _ | chosen
  · rw [pick_eq_none] at hpick ⊢
    exact List.Perm.eq_nil (hpick ▸ hfit)
  · rcases hpick' : pick packaging (r.reorder candidates) package dependency with _ | chosen'
    · rw [pick_eq_none] at hpick'
      have hmem := (pick_eq_some.mp hpick).mem
      rw [← hfit.mem_iff, hpick'] at hmem
      exact absurd hmem List.not_mem_nil
    · have hrank := StableSort.head?_sortedDesc_perm hfit hpick' hpick
      have hdigest : chosen'.digest = chosen.digest := congrArg (fun x => (ofLex x).2) hrank
      have hfirst' := firstRecord_of_pick (hdigests.reorder hperm) hpick'
      rw [hdigest, firstRecord_reorder hperm (firstRecord_of_pick hdigests hpick)
        (htwins chosen hpick)] at hfirst'
      exact hfirst'.symm

theorem missing_congr {required : List Str} {items items' : List (Package ρ)}
    (h : items.Perm items') : missing required items = missing required items' := by
  have hsame : ∀ capability, (∀ item ∈ items, capability ∉ packageCapabilities item) ↔
      ∀ item ∈ items', capability ∉ packageCapabilities item := fun capability =>
    forall_congr' fun item => by rw [h.mem_iff]
  unfold missing
  congr 1
  exact List.filter_congr fun capability _ => decide_eq_decide.mpr (hsame capability)

/-- **What is done with a dependency does not change with the order of the candidates.** -/
theorem choose_reorder (hperm : candidates.Perm r.candidates) (hdigests : DigestsDetermine r)
    (htwins : ∀ chosen, pick packaging r package dependency = some chosen →
      chosen ≠ .inspected r.root →
      ∀ candidate ∈ r.candidates, candidate.digest = chosen.digest → .inspected candidate = chosen) :
    choose packaging (r.reorder candidates) package dependency =
      choose packaging r package dependency := by
  have hversions : (versionChoices packaging (r.reorder candidates) dependency).Perm
      (versionChoices packaging r dependency) := versionChoices_reorder hperm
  have hnil : versionChoices packaging (r.reorder candidates) dependency ≠ [] ↔
      versionChoices packaging r dependency ≠ [] := not_congr
    ⟨fun h => List.Perm.eq_nil (h ▸ hversions.symm), fun h => List.Perm.eq_nil (h ▸ hversions)⟩
  unfold choose
  dsimp only
  rw [pick_reorder hperm hdigests htwins, missing_congr hversions]
  simp only [hnil]

end AI2Apps.Packages.Resolver
