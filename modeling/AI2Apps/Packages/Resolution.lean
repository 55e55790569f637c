import AI2Apps.Packages.ResolverChoices
import Mathlib.Data.List.Perm.Subperm

/-!
# What a plan of the resolver promises

The resolver always comes to an end.  A plan it returns binds each service to one digest, orders
the packages so that each follows those it is locked to, and locks each required dependency to a
package that its range admits.  The capabilities of a dependency are looked up by its service in
the manifest, so that of several entries for one service those of the first are required; and
`by_digest` is not used, so that of several candidates of one digest the first is planned.

* `Sound`: what is promised of a plan.
* `resolve_walked`: a plan is read off a depth-first walk.
* `resolver_soundness`: when a plan is sound.
* `resolver_unsound`: a capability that is not looked up.
-/

namespace AI2Apps.Packages.Resolver

variable {ν ρ : Type} {packaging : Packaging ν} {r : Repository ρ}
variable {plan : InstallPlan ρ} {p q package : Package ρ}

/-! ## Soundness -/

/-- The digests that a plan binds services to. -/
def InstallPlan.bindings (plan : InstallPlan ρ) : List (Str × Str) :=
  plan.packages.map (fun p => (p.serviceKey, p.digest)) ++
    plan.locks.flatMap fun l =>
      [(l.serviceKey, l.packageDigest), (l.dependencyKey, l.dependencyDigest)]

/-- The packages that the locks of a plan lead to from the root. -/
inductive Reachable (r : Repository ρ) (plan : InstallPlan ρ) : Package ρ → Prop
  | root : Reachable r plan (.inspected r.root)
  | lock {p q : Package ρ} {l : DependencyLock} : Reachable r plan p → l ∈ plan.locks →
      l.packageDigest = p.digest → q ∈ r.records → q.digest = l.dependencyDigest →
      Reachable r plan q

/-- A lock of a package binds an entry of its manifest to a package with all it asks for. -/
structure Satisfies (packaging : Packaging ν) (p : Package ρ) (item : ServiceEntry)
    (l : DependencyLock) (q : Package ρ) : Prop where
  serviceKey : l.serviceKey = p.serviceKey
  packageDigest : l.packageDigest = p.digest
  dependencyKey : l.dependencyKey = item.id
  dependencyDigest : l.dependencyDigest = q.digest
  dependencyVersion : l.dependencyVersion = packaging.text q.version
  service : q.serviceKey = item.id
  admitted : packaging.admits (specifier item.version) q.version = true
  provides : provides item.capabilities q

/-- An entry for a service that has an earlier entry. -/
def Repeats (p : Package ρ) (item : ServiceEntry) : Prop :=
  (p.manifest.services.find? fun other => other.id = item.id) ≠ some item

/-- The dependency of an entry. -/
def dependencyOf (item : ServiceEntry) : ServiceDependency := ⟨item.id, item.version, item.optional⟩

theorem requiredCapabilities_of_not_repeats {item : ServiceEntry} (h : ¬ Repeats p item) :
    requiredCapabilities p item.id = item.capabilities := by
  rw [requiredCapabilities, not_not.mp h]

theorem SameDigest.refl (p : Package ρ) : SameDigest p p := rfl

variable [LinearOrder ν] [DecidableEq ρ]

/-- What is promised of a plan. -/
structure Sound (packaging : Packaging ν) (r : Repository ρ) (plan : InstallPlan ρ) : Prop where
  one_digest : ∀ b ∈ plan.bindings, ∀ b' ∈ plan.bindings, b.1 = b'.1 → b.2 = b'.2
  satisfied : ∀ p, Reachable r plan p → ∀ item ∈ p.manifest.services, item.optional = false →
    ∃ l ∈ plan.locks, ∃ q ∈ r.records, Satisfies packaging p item l q
  once : plan.packages.Nodup
  after : ∀ xs p ys, plan.packages = xs ++ p :: ys → ∀ l ∈ plan.locks, l.packageDigest = p.digest →
    ∀ q ∈ plan.packages, q.digest = l.dependencyDigest → q ∈ xs
  any_order : ∀ candidates : List (Inspected ρ), candidates.Perm r.candidates →
    resolve packaging (r.reorder candidates) = .ok plan

/-- Each required entry that repeats a service asks for no more than the package picked has. -/
def RepeatsProvided (packaging : Packaging ν) (r : Repository ρ) : Prop :=
  ∀ p, Met packaging r p → ∀ item ∈ p.manifest.services, item.optional = false → Repeats p item →
    ∀ q, pick packaging r p (dependencyOf item) = some q → provides item.capabilities q

/-! ## A plan is read off a walk -/

/-- The state that a walk ends in, where a plan is returned. -/
def Resolves (packaging : Packaging ν) (r : Repository ρ) (plan : InstallPlan ρ)
    (a : DepthFirst.State (Package ρ) Str ServiceDependency) : Prop :=
  DepthFirst.Walked (system (choose packaging r)) SameDigest (.inspected r.root) a ∧
    plan.packages = a.finished.filterMap Package.inspected? ∧
    plan.locks = a.trail.map (lockOf packaging.text)

theorem resolve_walked (h : resolve packaging r = .ok plan) : ∃ a, Resolves packaging r plan a := by
  unfold resolve at h
  rcases hwalk : walk packaging.text (choose packaging r) r.records.length (initial r)
      (.inspected r.root) with e | s
  · rw [hwalk] at h
    cases h
  · rw [hwalk] at h
    obtain rfl := Except.ok.inj h
    let start : DepthFirst.State (Package ρ) Str ServiceDependency :=
      ⟨fun key => if r.root.serviceKey = key then some (Package.inspected r.root) else none, [], [], []⟩
    have hsim : Simulates packaging.text (initial r) start :=
      ⟨fun key => by
        show (Dict.empty.put r.root.serviceKey (Package.inspected r.root)).get? key =
          if r.root.serviceKey = key then some (Package.inspected r.root) else none
        rw [Dict.get?_put]
        rfl, rfl, rfl, rfl⟩
    obtain ⟨b, hb, hsim'⟩ := walk_follows serves_choose _ _ _ _ start hwalk hsim
    exact ⟨b.leave (.inspected r.root), ⟨b, hb, rfl⟩, hsim'.installOrder, hsim'.locks⟩

section Walked

variable {a : DepthFirst.State (Package ρ) Str ServiceDependency}

theorem Resolves.inv (h : Resolves packaging r plan a) :
    DepthFirst.Inv (system (choose packaging r)) SameDigest a ∧ a.visiting = [] ∧
      .inspected r.root ∈ a.finished :=
  h.1.inv SameDigest.refl

/-- Every package left is met. -/
theorem Resolves.met (h : Resolves packaging r plan a) : ∀ p ∈ a.finished, Met packaging r p :=
  h.1.finished_of SameDigest.refl .root fun _ _ _ hmet hdep htarget =>
    .pick hmet hdep (choose_eq_some.mp (target_eq_some.mp htarget))

theorem Resolves.source_finished (h : Resolves packaging r plan a)
    {t : Package ρ × ServiceDependency × Package ρ} (ht : t ∈ a.trail) : t.1 ∈ a.finished :=
  h.inv.1.selected_finished _ t.1 (h.inv.1.trail_source t ht)
    (by rw [h.inv.2.1]; exact List.not_mem_nil)

/-- Packages left that have one service are one. -/
theorem Resolves.eq_of_serviceKey (h : Resolves packaging r plan a) (hp : p ∈ a.finished)
    (hq : q ∈ a.finished) (hkey : p.serviceKey = q.serviceKey) : p = q := by
  have hp' : a.selected p.serviceKey = some p := h.inv.1.finished_selected p hp
  have hq' : a.selected q.serviceKey = some q := h.inv.1.finished_selected q hq
  rw [hkey, hq'] at hp'
  exact (Option.some.inj hp').symm

/-- Packages left that have one digest are one. -/
theorem Resolves.eq_of_digest (hdigests : DigestsDetermine r) (h : Resolves packaging r plan a)
    (hp : p ∈ a.finished) (hq : q ∈ a.finished) (hdigest : p.digest = q.digest) : p = q :=
  h.eq_of_serviceKey hp hq
    (hdigests p (h.met p hp).mem q (h.met q hq).mem hdigest).serviceKey

/-- **Every package met is left**, where digests determine what packages contain. -/
theorem Resolves.finished_of_met (hdigests : DigestsDetermine r) (h : Resolves packaging r plan a)
    (hmet : Met packaging r p) : p ∈ a.finished := by
  induction hmet with
  | root => exact h.inv.2.2
  | @pick p d q hp hd hpick ih =>
    have hchoose : choose packaging r p d = .ok (some q) := choose_eq_some.mpr hpick
    rcases h.inv.1.closed p ih d hd with hnone | ⟨m, hm, htrail⟩
    · rw [target_eq_some, hchoose] at hnone
      cases Except.ok.inj hnone
    · rw [target_eq_some, hchoose] at hm
      obtain rfl := Option.some.inj (Except.ok.inj hm)
      obtain ⟨x, hx, -, hsame⟩ := h.inv.1.trail_target _ htrail
      have hx' := (h.met x hx).firstRecord hdigests
      have hxq : x.digest = q.digest := hsame
      rw [hxq, firstRecord_of_pick hdigests hpick] at hx'
      exact Option.some.inj hx' ▸ hx

/-- Where an entry of a package left leads. -/
theorem Resolves.entry (h : Resolves packaging r plan a) (hp : p ∈ a.finished) {item : ServiceEntry}
    (hitem : item ∈ p.manifest.services) (hrequired : item.optional = false) :
    ∃ q, pick packaging r p (dependencyOf item) = some q ∧ (p, dependencyOf item, q) ∈ a.trail := by
  have hd : dependencyOf item ∈ dependencies p := List.mem_map.mpr ⟨item, hitem, rfl⟩
  rcases h.inv.1.closed p hp _ hd with hnone | ⟨q, hq, htrail⟩
  · have hoptional := optional_of_choose (target_eq_some.mp hnone)
    rw [dependencyOf, hrequired] at hoptional
    cases hoptional
  · exact ⟨q, choose_eq_some.mp (target_eq_some.mp hq), htrail⟩

theorem Resolves.lock_mem (h : Resolves packaging r plan a)
    {t : Package ρ × ServiceDependency × Package ρ} (ht : t ∈ a.trail) :
    lockOf packaging.text t ∈ plan.locks := by
  rw [h.2.2]
  exact List.mem_map_of_mem ht

theorem Resolves.exists_trail (h : Resolves packaging r plan a) {l : DependencyLock}
    (hl : l ∈ plan.locks) : ∃ t ∈ a.trail, lockOf packaging.text t = l := by
  rw [h.2.2] at hl
  exact List.mem_map.mp hl

theorem Resolves.mem_packages (h : Resolves packaging r plan a) {x : Inspected ρ} :
    x ∈ plan.packages ↔ .inspected x ∈ a.finished := by
  rw [h.2.1]
  exact mem_filterMap_inspected?

/-! ## Services and digests -/

/-- Every digest that a service is bound to is that of a package left. -/
theorem Resolves.binding (h : Resolves packaging r plan a) {b : Str × Str}
    (hb : b ∈ plan.bindings) : ∃ p ∈ a.finished, p.serviceKey = b.1 ∧ p.digest = b.2 := by
  rcases List.mem_append.mp hb with hb | hb
  · obtain ⟨x, hx, rfl⟩ := List.mem_map.mp hb
    exact ⟨_, h.mem_packages.mp hx, rfl, rfl⟩
  · obtain ⟨l, hl, hb⟩ := List.mem_flatMap.mp hb
    obtain ⟨t, ht, rfl⟩ := h.exists_trail hl
    rcases List.mem_cons.mp hb with rfl | hb
    · exact ⟨t.1, h.source_finished ht, rfl, rfl⟩
    · obtain rfl := List.mem_singleton.mp hb
      obtain ⟨m, hm, hkey, hsame⟩ := h.inv.1.trail_target t ht
      have hserves := serves_choose t.1 t.2.1 t.2.2 (target_eq_some.mp (h.inv.1.trail_edge t ht).2)
      have hkey' : m.serviceKey = t.2.2.serviceKey := hkey
      exact ⟨m, hm, hkey'.trans hserves, hsame⟩

/-- **Each service is bound to one digest.** -/
theorem Resolves.one_digest (h : Resolves packaging r plan a) :
    ∀ b ∈ plan.bindings, ∀ b' ∈ plan.bindings, b.1 = b'.1 → b.2 = b'.2 := by
  intro b hb b' hb' heq
  obtain ⟨p, hp, hkey, hdigest⟩ := h.binding hb
  obtain ⟨q, hq, hkey', hdigest'⟩ := h.binding hb'
  rw [← hdigest, ← hdigest', h.eq_of_serviceKey hp hq (hkey.trans (heq.trans hkey'.symm))]

/-! ## The order of the plan -/

/-- **Every planned package appears once.** -/
theorem Resolves.once (h : Resolves packaging r plan a) : plan.packages.Nodup := by
  rw [h.2.1]
  refine List.Nodup.filterMap (fun x y z hx hy => ?_) (List.Nodup.of_map _ h.inv.1.finished_nodup)
  rw [inspected?_eq_some.mp hx, inspected?_eq_some.mp hy]

/-- **Every planned package follows those it is locked to.** -/
theorem Resolves.after (hdigests : DigestsDetermine r) (h : Resolves packaging r plan a)
    {xs ys : List (Inspected ρ)} {x y : Inspected ρ} {l : DependencyLock}
    (hsplit : plan.packages = xs ++ x :: ys) (hl : l ∈ plan.locks) (hx : l.packageDigest = x.digest)
    (hy : y ∈ plan.packages) (hdigest : y.digest = l.dependencyDigest) : y ∈ xs := by
  have hpackages := h.2.1.symm.trans hsplit
  obtain ⟨us, vs, hfinished, rfl, hvs⟩ := List.filterMap_eq_append_iff.mp hpackages
  obtain ⟨ws, w, zs, rfl, hws, hw, rfl⟩ := List.filterMap_eq_cons_iff.mp hvs
  obtain rfl := inspected?_eq_some.mp hw
  obtain ⟨t, ht, rfl⟩ := h.exists_trail hl
  have hxfin : Package.inspected x ∈ a.finished := by
    rw [hfinished]
    simp
  have hsource : t.1 = .inspected x := h.eq_of_digest hdigests (h.source_finished ht) hxfin hx
  have hyfin := h.mem_packages.mp hy
  obtain ⟨m, hm, hkey, hsame⟩ := h.inv.1.trail_target t ht
  have hmy : m = .inspected y := h.eq_of_digest hdigests hm hyfin (hsame.trans hdigest.symm)
  subst hmy
  -- The target is neither the package itself nor one that comes after it.
  have hpost := h.inv.1.postorder
  rw [hfinished, ← List.append_assoc, List.pairwise_append] at hpost
  have hne := h.inv.1.trail_ne t ht
  rw [hfinished, ← List.append_assoc] at hyfin
  rcases List.mem_append.mp hyfin with hmem | hmem
  · rcases List.mem_append.mp hmem with hmem | hmem
    · exact mem_filterMap_inspected?.mpr hmem
    · cases hws _ hmem
  · rcases List.mem_cons.mp hmem with heq | hmem
    · rw [← hkey, heq, hsource] at hne
      exact absurd rfl hne
    · have hlt := (List.pairwise_cons.mp hpost.2.1).1 _ hmem t ht hsource
      exact absurd hkey.symm hlt

/-! ## What the locks lead to -/

/-- What the locks lead to has the digest of a package left. -/
theorem Resolves.reachable (h : Resolves packaging r plan a) (hp : Reachable r plan p) :
    p ∈ r.records ∧ ∃ n ∈ a.finished, n.digest = p.digest := by
  cases hp with
  | root => exact ⟨root_mem_records, _, h.inv.2.2, rfl⟩
  | lock _ hl _ hq hdigest =>
    obtain ⟨t, ht, rfl⟩ := h.exists_trail hl
    obtain ⟨m, hm, -, hsame⟩ := h.inv.1.trail_target t ht
    exact ⟨hq, m, hm, hsame.trans hdigest.symm⟩

/-- What is met is what the locks lead to. -/
theorem Resolves.reachable_of_met (hdigests : DigestsDetermine r) (h : Resolves packaging r plan a)
    (hmet : Met packaging r p) : Reachable r plan p := by
  induction hmet with
  | root => exact .root
  | @pick p d q hp hd hpick ih =>
    have hchoose : choose packaging r p d = .ok (some q) := choose_eq_some.mpr hpick
    rcases h.inv.1.closed p (h.finished_of_met hdigests hp) d hd with hnone | ⟨m, hm, htrail⟩
    · rw [target_eq_some, hchoose] at hnone
      cases Except.ok.inj hnone
    · rw [target_eq_some, hchoose] at hm
      obtain rfl := Option.some.inj (Except.ok.inj hm)
      exact .lock ih (h.lock_mem htrail) rfl (mem_of_pick hpick).1 rfl

/-- **Every required entry is satisfied**, if those that repeat a service are provided. -/
theorem Resolves.satisfied (hdigests : DigestsDetermine r) (h : Resolves packaging r plan a)
    (hrepeats : RepeatsProvided packaging r) (hp : Reachable r plan p) {item : ServiceEntry}
    (hitem : item ∈ p.manifest.services) (hrequired : item.optional = false) :
    ∃ l ∈ plan.locks, ∃ q ∈ r.records, Satisfies packaging p item l q := by
  obtain ⟨hmem, n, hn, hdigest⟩ := h.reachable hp
  have hmet := h.met n hn
  have hsame := hdigests n hmet.mem p hmem hdigest
  rw [← hsame.manifest] at hitem
  obtain ⟨q, hpick, htrail⟩ := h.entry hn hitem hrequired
  obtain ⟨hq, hfits⟩ := mem_of_pick hpick
  refine ⟨_, h.lock_mem htrail, q, hq,
    { serviceKey := hsame.serviceKey
      packageDigest := hdigest
      dependencyKey := rfl
      dependencyDigest := rfl
      dependencyVersion := rfl
      service := hfits.serviceKey
      admitted := hfits.admitted
      provides := ?_ }⟩
  by_cases hrepeat : Repeats n item
  · exact hrepeats n hmet item hitem hrequired hrepeat q hpick
  · rw [← requiredCapabilities_of_not_repeats hrepeat]
    exact hfits.provides

/-- What is satisfied is provided. -/
theorem Resolves.repeatsProvided (hdigests : DigestsDetermine r) (h : Resolves packaging r plan a)
    (hsatisfied : ∀ p, Reachable r plan p → ∀ item ∈ p.manifest.services, item.optional = false →
      ∃ l ∈ plan.locks, ∃ q ∈ r.records, Satisfies packaging p item l q) :
    RepeatsProvided packaging r := by
  intro p hmet item hitem hrequired _ q hpick
  obtain ⟨q', hpick', htrail⟩ := h.entry (h.finished_of_met hdigests hmet) hitem hrequired
  obtain rfl := Option.some.inj (hpick.symm.trans hpick')
  obtain ⟨l, hl, x, hx, hsat⟩ := hsatisfied p (h.reachable_of_met hdigests hmet) item hitem hrequired
  have hbinding : ∀ l ∈ plan.locks, (l.dependencyKey, l.dependencyDigest) ∈ plan.bindings :=
    fun l hl => List.mem_append_right _ (List.mem_flatMap.mpr ⟨l, hl, by simp⟩)
  have hdigest := h.one_digest _ (hbinding l hl) _ (hbinding _ (h.lock_mem htrail))
    hsat.dependencyKey
  have hsame := hdigests x hx q (mem_of_pick hpick).1 (hsat.dependencyDigest.symm.trans hdigest)
  intro capability hcapability
  rw [packageCapabilities, ← hsame.manifest]
  exact hsat.provides capability hcapability

/-! ## The order of the candidates -/

/-- The package planned is the first candidate of its digest. -/
theorem Resolves.firstRecord (hdigests : DigestsDetermine r) (h : Resolves packaging r plan a)
    {x : Inspected ρ} (hx : x ∈ plan.packages) : firstRecord r x.digest = some (.inspected x) :=
  (h.met _ (h.mem_packages.mp hx)).firstRecord hdigests

end Walked

/-- **The order of the candidates does not matter**, if no package met has a twin. -/
theorem resolve_reorder (hdigests : DigestsDetermine r) (htwins : NoTwins packaging r)
    {candidates : List (Inspected ρ)} (hperm : candidates.Perm r.candidates) :
    resolve packaging (r.reorder candidates) = resolve packaging r := by
  have hagree : Agree (choose packaging (r.reorder candidates)) (choose packaging r)
      (Met packaging r) := by
    have heq : ∀ p, Met packaging r p → ∀ d ∈ dependencies p,
        choose packaging (r.reorder candidates) p d = choose packaging r p d := fun p hp d hd =>
      choose_reorder hperm hdigests fun chosen hpick => htwins chosen (.pick hp hd hpick)
    refine ⟨heq, fun p hp d hd chosen hchosen => ?_⟩
    rw [heq p hp d hd] at hchosen
    exact .pick hp hd (choose_eq_some.mp hchosen)
  have hwalk : walk packaging.text (choose packaging (r.reorder candidates)) r.records.length (initial r)
      (.inspected r.root) = walk packaging.text (choose packaging r) r.records.length (initial r)
        (.inspected r.root) := walk_congr hagree _ _ _ .root
  have hstart : initial (r.reorder candidates) = initial r := rfl
  have hroot : (r.reorder candidates).root = r.root := rfl
  have hreplacing : replacing (r.reorder candidates) = replacing r := rfl
  rw [resolve, resolve, (records_reorder hperm).length_eq, hstart, hroot, hreplacing, hwalk]

/-- A candidate of the digest of a planned package is planned where it comes first. -/
theorem noTwins_of_any_order (hdigests : DigestsDetermine r) (h : resolve packaging r = .ok plan)
    (hany : ∀ candidates : List (Inspected ρ), candidates.Perm r.candidates →
      resolve packaging (r.reorder candidates) = .ok plan) : NoTwins packaging r := by
  intro p hmet hroot c hc hdigest
  obtain ⟨a, ha⟩ := resolve_walked h
  have hfirst := hmet.firstRecord hdigests
  have hrootDigest : r.root.digest ≠ p.digest := fun heq => by
    rw [← heq, firstRecord_root] at hfirst
    exact hroot (Option.some.inj hfirst).symm
  rw [firstRecord_eq, if_neg hrootDigest] at hfirst
  obtain ⟨x, hx⟩ : ∃ x, r.candidates.find? (fun c => c.digest = p.digest) = some x := by
    rw [← Option.isSome_iff_exists, List.find?_isSome]
    exact ⟨c, hc, decide_eq_true hdigest⟩
  rw [hx] at hfirst
  obtain rfl : Package.inspected x = p := Option.some.inj hfirst
  have hplanned := ha.mem_packages.mpr (ha.finished_of_met hdigests hmet)
  have hperm : (c :: r.candidates.erase c).Perm r.candidates := (List.perm_cons_erase hc).symm
  obtain ⟨b, hb⟩ := resolve_walked (hany _ hperm)
  have hfirst' := hb.firstRecord (hdigests.reorder hperm) hplanned
  rw [firstRecord_eq] at hfirst'
  change (if r.root.digest = x.digest then some (Package.inspected r.root)
    else (((c :: r.candidates.erase c).find? fun y => y.digest = x.digest).map Package.inspected).or _) =
      some (Package.inspected x) at hfirst'
  have hfirstC : (c :: r.candidates.erase c).find? (fun y => y.digest = x.digest) = some c :=
    List.find?_cons_of_pos (decide_eq_true hdigest)
  have hrootNe : r.root.digest ≠ x.digest := hrootDigest
  rw [if_neg hrootNe, hfirstC] at hfirst'
  exact Option.some.inj hfirst'

/-! ## The claim about every resolution -/

/-- The resolver comes to an end. -/
theorem resolve_ne_tooDeep : resolve packaging r ≠ .error .tooDeep := by
  have hroom : Room (r.records.map Package.serviceKey) (initial r).visiting r.records.length :=
    ⟨List.nodup_nil, List.nil_subset _, by simp⟩
  have hwalk : walk packaging.text (choose packaging r) r.records.length (initial r)
      (.inspected r.root) ≠ .error .tooDeep :=
    walk_ne_tooDeep bounded_choose _ _ _ hroom (List.mem_map_of_mem root_mem_records) List.not_mem_nil
  unfold resolve
  rcases h : walk packaging.text (choose packaging r) r.records.length (initial r)
      (.inspected r.root) with e | s
  · rw [h] at hwalk
    dsimp only
    exact fun heq => hwalk (congrArg _ (Except.error.inj heq))
  · exact fun heq => by cases heq

/-- **The resolver comes to an end, and a plan it returns is sound exactly if no required entry
that repeats a service asks for a capability that the package picked lacks, and no candidate
differs from a package met that has its digest.** -/
theorem resolver_soundness (packaging : Packaging ν) (r : Repository ρ) (hdigests : DigestsDetermine r) :
    resolve packaging r ≠ .error .tooDeep ∧ ∀ plan, resolve packaging r = .ok plan →
      (Sound packaging r plan ↔ RepeatsProvided packaging r ∧ NoTwins packaging r) := by
  refine ⟨resolve_ne_tooDeep, fun plan h => ?_⟩
  obtain ⟨a, ha⟩ := resolve_walked h
  constructor
  · intro hsound
    exact ⟨ha.repeatsProvided hdigests hsound.satisfied, noTwins_of_any_order hdigests h hsound.any_order⟩
  · rintro ⟨hrepeats, htwins⟩
    exact
      { one_digest := ha.one_digest
        satisfied := fun p hp item hitem hrequired =>
          ha.satisfied hdigests hrepeats hp hitem hrequired
        once := ha.once
        after := fun xs p ys hsplit l hl hp q hq hd => ha.after hdigests hsplit hl hp hq hd
        any_order := fun candidates hperm => (resolve_reorder hdigests htwins hperm).trans h }

/-! ## A service required twice -/

/-- One version, and the ranges that admit every version. -/
def oneVersion : Packaging ℕ where
  parse _ := 0
  text := id
  admits spec _ := spec = []

/-- A package that requires a service for one capability, and again for another. -/
def requiresTwice : Inspected Unit where
  serviceKey := str "app"
  version := str "1.0"
  digest := str "sha256:a"
  manifest := ⟨[⟨str "store", str "*", false, [str "read"]⟩, ⟨str "store", str "*", false, [str "write"]⟩], []⟩
  rest := ()

/-- A package with the first of the capabilities. -/
def readsOnly : Inspected Unit where
  serviceKey := str "store"
  version := str "1.0"
  digest := str "sha256:b"
  manifest := ⟨[], [str "read"]⟩
  rest := ()

def requiredTwice : Repository Unit := ⟨requiresTwice, [readsOnly], []⟩

def planTwice : InstallPlan Unit where
  rootDigest := str "sha256:a"
  packages := [readsOnly, requiresTwice]
  locks := List.replicate 2
    ⟨str "app", str "sha256:a", str "store", str "1.0", str "sha256:b", false⟩
  replacing := []

theorem resolve_requiredTwice : resolve oneVersion requiredTwice = .ok planTwice := by
  decide +kernel

/-- The second capability is not looked up. -/
theorem resolver_unsound :
    ¬ ∀ plan, resolve oneVersion requiredTwice = .ok plan → Sound oneVersion requiredTwice plan := by
  intro h
  obtain ⟨l, -, q, hq, hsat⟩ := (h planTwice resolve_requiredTwice).satisfied
    (.inspected requiresTwice) .root ⟨str "store", str "*", false, [str "write"]⟩
    (by simp [Package.manifest, requiresTwice]) rfl
  have hrecords : requiredTwice.records = [.inspected requiresTwice, .inspected readsOnly] := rfl
  rw [hrecords, List.mem_cons, List.mem_singleton] at hq
  rcases hq with rfl | rfl
  · exact absurd hsat.service (by decide)
  · exact absurd hsat.provides (by decide)

theorem resolver_soundness_requiredTwice :
    resolve oneVersion requiredTwice ≠ .error .tooDeep ∧
      (Sound oneVersion requiredTwice planTwice ↔
        RepeatsProvided oneVersion requiredTwice ∧ NoTwins oneVersion requiredTwice) := by
  have hrecords : requiredTwice.records = [.inspected requiresTwice, .inspected readsOnly] := rfl
  have hdigests : DigestsDetermine requiredTwice := by
    intro p hp q hq hdigest
    rw [hrecords, List.mem_cons, List.mem_singleton] at hp hq
    rcases hp with rfl | rfl <;> rcases hq with rfl | rfl
    · exact ⟨rfl, rfl, rfl⟩
    · exact absurd hdigest (by decide)
    · exact absurd hdigest (by decide)
    · exact ⟨rfl, rfl, rfl⟩
  have h := resolver_soundness oneVersion requiredTwice hdigests
  exact ⟨h.1, h.2 planTwice resolve_requiredTwice⟩

end AI2Apps.Packages.Resolver
