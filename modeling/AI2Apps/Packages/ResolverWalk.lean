import AI2Apps.Lib.DepthFirst
import AI2Apps.Packages.Resolver

/-!
# The walk of the resolver

The walk of the resolver is a depth-first walk: the packages are the nodes, a service has the
package selected for it, and the packages left are in post-order.  What the walk does depends
only on the package picked for each dependency.

* `walk_follows`: a walk that returns is a depth-first walk.
* `walk_ne_tooDeep`: a walk no deeper than there are services comes to an end.
* `walk_congr`: walks that pick the same packages are the same.
-/

namespace AI2Apps.Packages.Resolver

variable {ν ρ : Type} {text : Str → Str}
variable {choose : Package ρ → ServiceDependency → Except Failure (Option (Package ρ))}

/-- Packages, their services and dependencies, and the packages picked. -/
def system (choose : Package ρ → ServiceDependency → Except Failure (Option (Package ρ))) :
    DepthFirst.System (Package ρ) Str ServiceDependency where
  key := Package.serviceKey
  edges := dependencies
  target package dependency := (choose package dependency).toOption

theorem target_eq_some {package : Package ρ} {dependency : ServiceDependency}
    {target : Option (Package ρ)} :
    (system choose).target package dependency = some target ↔
      choose package dependency = .ok target := by
  show (choose package dependency).toOption = some target ↔ _
  rcases choose package dependency with e | t <;> simp [Except.toOption]

/-- Packages of one digest. -/
def SameDigest (p q : Package ρ) : Prop := p.digest = q.digest

/-- The lock of an edge taken. -/
def lockOf (text : Str → Str) (t : Package ρ × ServiceDependency × Package ρ) : DependencyLock :=
  ⟨t.1.serviceKey, t.1.digest, t.2.1.serviceKey, text t.2.2.version, t.2.2.digest, t.2.1.optional⟩

/-- The shared variables of the resolver are those of a depth-first walk. -/
structure Simulates (text : Str → Str) (s : State ρ)
    (a : DepthFirst.State (Package ρ) Str ServiceDependency) : Prop where
  selected : ∀ key, s.selected.get? key = a.selected key
  locks : s.locks = a.trail.map (lockOf text)
  visiting : s.visiting = a.visiting
  installOrder : s.installOrder = a.finished.filterMap Package.inspected?

variable {s s' : State ρ} {a : DepthFirst.State (Package ρ) Str ServiceDependency}

theorem Simulates.select (h : Simulates text s a) (chosen : Package ρ) :
    Simulates text { s with selected := s.selected.put chosen.serviceKey chosen }
      (a.select (system choose) chosen) where
  selected key := by
    show (s.selected.put chosen.serviceKey chosen).get? key =
      if chosen.serviceKey = key then some chosen else a.selected key
    rw [Dict.get?_put, h.selected]
  locks := h.locks
  visiting := h.visiting
  installOrder := h.installOrder

theorem Simulates.enter (h : Simulates text s a) (package : Package ρ) :
    Simulates text { s with visiting := s.visiting ++ [package.serviceKey] }
      (a.enter (system choose) package) where
  selected := h.selected
  locks := h.locks
  visiting := by
    show s.visiting ++ [package.serviceKey] = a.visiting ++ [package.serviceKey]
    rw [h.visiting]
  installOrder := h.installOrder

theorem Simulates.lock (h : Simulates text s a) (package : Package ρ) (dependency : ServiceDependency)
    (chosen : Package ρ) :
    Simulates text (lock text s package dependency chosen) (a.take package dependency chosen) where
  selected := h.selected
  locks := by
    show s.locks ++ _ = (a.trail ++ [(package, dependency, chosen)]).map (lockOf text)
    rw [List.map_append, h.locks]
    rfl
  visiting := h.visiting
  installOrder := h.installOrder

theorem inspected?_eq_some {package : Package ρ} {p : Inspected ρ} :
    package.inspected? = some p ↔ package = .inspected p := by
  cases package <;> simp [Package.inspected?]

theorem mem_filterMap_inspected? {l : List (Package ρ)} {p : Inspected ρ} :
    p ∈ l.filterMap Package.inspected? ↔ .inspected p ∈ l := by
  rw [List.mem_filterMap]
  constructor
  · rintro ⟨package, hmem, hp⟩
    exact inspected?_eq_some.mp hp ▸ hmem
  · exact fun hmem => ⟨_, hmem, rfl⟩

/-! ## One step -/

/-- What binding a package to a service does. -/
theorem bind_eq_ok {recur : State ρ → Package ρ → Except Failure (State ρ)} {key : Str}
    {chosen : Package ρ} (h : bind recur s key chosen = .ok s') :
    (∃ existing, s.selected.get? key = some existing ∧ existing.digest = chosen.digest ∧ s' = s) ∨
      (s.selected.get? key = none ∧
        recur { s with selected := s.selected.put key chosen } chosen = .ok s') := by
  unfold bind at h
  rcases hselected : s.selected.get? key with _ | existing
  · rw [hselected] at h
    exact .inr ⟨rfl, h⟩
  · rw [hselected] at h
    dsimp only at h
    split_ifs at h with hdigest
    exact .inl ⟨existing, rfl, not_not.mp hdigest, (Except.ok.inj h).symm⟩

/-- What the loop does with a dependency. -/
theorem follow_cons_eq_ok {recur : State ρ → Package ρ → Except Failure (State ρ)}
    {package : Package ρ} {d : ServiceDependency} {ds : List ServiceDependency}
    (h : follow text choose recur package s (d :: ds) = .ok s') :
    d.serviceKey ∉ s.visiting ∧
      ((choose package d = .ok none ∧ follow text choose recur package s ds = .ok s') ∨
        ∃ chosen s₁, choose package d = .ok (some chosen) ∧
          bind recur s d.serviceKey chosen = .ok s₁ ∧
          follow text choose recur package (lock text s₁ package d chosen) ds = .ok s') := by
  unfold follow at h
  split_ifs at h with hvisiting
  refine ⟨hvisiting, ?_⟩
  rcases hchoose : choose package d with e | _ | chosen
  · rw [hchoose] at h
    cases h
  · rw [hchoose] at h
    exact .inl ⟨rfl, h⟩
  · rw [hchoose] at h
    dsimp only at h
    rcases hbind : bind recur s d.serviceKey chosen with e | s₁
    · rw [hbind] at h
      cases h
    · rw [hbind] at h
      exact .inr ⟨chosen, s₁, rfl, hbind, h⟩

/-- The loop leaves the services being visited as they were, if what it calls does. -/
theorem visiting_follow {recur : State ρ → Package ρ → Except Failure (State ρ)} {package : Package ρ}
    (hrecur : ∀ s chosen s', recur s chosen = .ok s' → s'.visiting = s.visiting) :
    ∀ {ds : List ServiceDependency} {s s' : State ρ},
      follow text choose recur package s ds = .ok s' → s'.visiting = s.visiting
  | [], s, s', h => by
    obtain rfl := Except.ok.inj h
    rfl
  | d :: ds, s, s', h => by
    obtain ⟨-, ⟨-, hrest⟩ | ⟨chosen, s₁, -, hbind, hrest⟩⟩ := follow_cons_eq_ok h
    · exact visiting_follow hrecur hrest
    · have hs' := visiting_follow hrecur hrest
      rcases bind_eq_ok hbind with ⟨existing, -, -, rfl⟩ | ⟨-, hbind⟩
      · exact hs'
      · have hs₁ := hrecur _ chosen s₁ hbind
        exact hs'.trans hs₁

/-! ## Walks that pick the same packages -/

section Congr

variable {choose' : Package ρ → ServiceDependency → Except Failure (Option (Package ρ))}
variable {met : Package ρ → Prop}

/-- Two ways to pick agree on the packages that are met. -/
structure Agree (choose choose' : Package ρ → ServiceDependency → Except Failure (Option (Package ρ)))
    (met : Package ρ → Prop) : Prop where
  eq : ∀ package, met package → ∀ d ∈ dependencies package, choose package d = choose' package d
  met : ∀ package, met package → ∀ d ∈ dependencies package, ∀ chosen,
    choose package d = .ok (some chosen) → met chosen

theorem follow_congr (h : Agree choose choose' met)
    {recur recur' : State ρ → Package ρ → Except Failure (State ρ)}
    (hrecur : ∀ s chosen, met chosen → recur s chosen = recur' s chosen) {package : Package ρ}
    (hmet : met package) :
    ∀ {ds : List ServiceDependency}, (∀ d ∈ ds, d ∈ dependencies package) → ∀ {s : State ρ},
      follow text choose recur package s ds = follow text choose' recur' package s ds
  | [], _, s => rfl
  | d :: ds, hds, s => by
    have hd := hds d (List.mem_cons_self ..)
    have ih : ∀ {s}, follow text choose recur package s ds = follow text choose' recur' package s ds :=
      follow_congr h hrecur hmet fun x hx => hds x (List.mem_cons_of_mem _ hx)
    unfold follow
    rw [← h.eq package hmet d hd]
    split_ifs
    · rfl
    · rcases hchoose : choose package d with e | _ | chosen
      · rfl
      · exact ih
      · have hbind : bind recur s d.serviceKey chosen = bind recur' s d.serviceKey chosen := by
          unfold bind
          rw [hrecur _ chosen (h.met package hmet d hd chosen hchoose)]
        dsimp only
        rw [hbind]
        rcases bind recur' s d.serviceKey chosen with e | s₁
        · rfl
        · exact ih

/-- **Walks that pick the same packages are the same.** -/
theorem walk_congr [DecidableEq ρ] (h : Agree choose choose' met) :
    ∀ (depth : ℕ) (s : State ρ) (package : Package ρ), met package →
      walk text choose depth s package = walk text choose' depth s package
  | 0, _, _, _ => rfl
  | depth + 1, s, package, hmet => by
    unfold walk
    rw [follow_congr h (fun s chosen => walk_congr h depth s chosen) hmet fun _ => id]

end Congr

/-! ## The depth-first walk -/

variable [DecidableEq ρ]

theorem Simulates.leave (h : Simulates text s a) (package : Package ρ) :
    Simulates text (leave s package) (a.leave package) where
  selected := h.selected
  locks := h.locks
  visiting := congrArg List.dropLast h.visiting
  installOrder := by
    cases package with
    | inspected p =>
      show (if p ∈ s.installOrder then s.installOrder else s.installOrder ++ [p]) =
        (if Package.inspected p ∈ a.finished then a.finished
          else a.finished ++ [Package.inspected p]).filterMap Package.inspected?
      rw [h.installOrder]
      by_cases hp : Package.inspected p ∈ a.finished
      · rw [if_pos hp, if_pos (mem_filterMap_inspected?.mpr hp)]
      · rw [if_neg hp, if_neg (fun hmem => hp (mem_filterMap_inspected?.mp hmem)),
          List.filterMap_append]
        rfl
    | installed r =>
      show s.installOrder = (if Package.installed r ∈ a.finished then a.finished
        else a.finished ++ [Package.installed r]).filterMap Package.inspected?
      rw [h.installOrder]
      split_ifs
      · rfl
      · rw [List.filterMap_append]
        exact (List.append_nil _).symm

/-- What a package picked for a dependency has to do with it. -/
def Serves (choose : Package ρ → ServiceDependency → Except Failure (Option (Package ρ))) : Prop :=
  ∀ package dependency chosen, choose package dependency = .ok (some chosen) →
    chosen.serviceKey = dependency.serviceKey

/-- What a walk does. -/
theorem walk_succ_eq_ok {depth : ℕ} {package : Package ρ}
    (h : walk text choose (depth + 1) s package = .ok s') :
    ∃ s₁, follow text choose (walk text choose depth) package
      { s with visiting := s.visiting ++ [package.serviceKey] } (dependencies package) = .ok s₁ ∧
      s' = leave s₁ package := by
  unfold walk at h
  split_ifs at h
  rcases hfollow : follow text choose (walk text choose depth) package
      { s with visiting := s.visiting ++ [package.serviceKey] } (dependencies package) with e | s₁
  · rw [hfollow] at h
    cases h
  · rw [hfollow] at h
    exact ⟨s₁, rfl, (Except.ok.inj h).symm⟩

/-- The loop over dependencies is a depth-first walk, if what it calls is one. -/
theorem follow_follows (hserves : Serves choose)
    {recur : State ρ → Package ρ → Except Failure (State ρ)} {package : Package ρ}
    (hrecur : ∀ s chosen s' a, recur s chosen = .ok s' → Simulates text s a →
      ∃ b, DepthFirst.Follows (system choose) SameDigest chosen (dependencies chosen)
        (a.enter (system choose) chosen) b ∧ Simulates text s' (b.leave chosen)) :
    ∀ {ds : List ServiceDependency} {s s' : State ρ}
      {a : DepthFirst.State (Package ρ) Str ServiceDependency},
      follow text choose recur package s ds = .ok s' → Simulates text s a →
      ∃ b, DepthFirst.Follows (system choose) SameDigest package ds a b ∧ Simulates text s' b
  | [], s, s', a, h, hsim => by
    obtain rfl := Except.ok.inj h
    exact ⟨a, .nil package a, hsim⟩
  | d :: ds, s, s', a, h, hsim => by
    obtain ⟨hvisiting, ⟨hchoose, hrest⟩ | ⟨chosen, s₁, hchoose, hbind, hrest⟩⟩ := follow_cons_eq_ok h
    · obtain ⟨b, hb, hsim'⟩ := follow_follows hserves hrecur hrest hsim
      exact ⟨b, .skip (target_eq_some.mpr hchoose) hb, hsim'⟩
    · have hkey := hserves package d chosen hchoose
      have htarget := target_eq_some.mpr hchoose
      have hout : (system choose).key chosen ∉ a.visiting := by
        show chosen.serviceKey ∉ a.visiting
        rw [hkey, ← hsim.visiting]
        exact hvisiting
      have hget := hsim.selected d.serviceKey
      rcases bind_eq_ok hbind with ⟨existing, hselected, hdigest, rfl⟩ | ⟨hselected, hbind⟩
      · obtain ⟨c, hc, hsim'⟩ := follow_follows hserves hrecur hrest (hsim.lock package d chosen)
        rw [hselected, ← hkey] at hget
        exact ⟨c, .again htarget hout hget.symm hdigest hc, hsim'⟩
      · rw [hselected, ← hkey] at hget
        rw [← hkey] at hbind
        obtain ⟨b, hb, hsim₁⟩ := hrecur _ chosen s₁ _ hbind (hsim.select chosen)
        obtain ⟨c, hc, hsim'⟩ := follow_follows hserves hrecur hrest (hsim₁.lock package d chosen)
        exact ⟨c, .visit htarget hout hget.symm hb hc, hsim'⟩

/-- **A walk that returns is a depth-first walk.** -/
theorem walk_follows (hserves : Serves choose) :
    ∀ (depth : ℕ) (s : State ρ) (package : Package ρ) (s' : State ρ)
      (a : DepthFirst.State (Package ρ) Str ServiceDependency),
      walk text choose depth s package = .ok s' → Simulates text s a →
      ∃ b, DepthFirst.Follows (system choose) SameDigest package (dependencies package)
        (a.enter (system choose) package) b ∧ Simulates text s' (b.leave package)
  | 0, s, package, s', a, h, hsim => by cases h
  | depth + 1, s, package, s', a, h, hsim => by
    obtain ⟨s₁, hfollow, rfl⟩ := walk_succ_eq_ok h
    obtain ⟨b, hb, hsim'⟩ := follow_follows hserves
      (fun s chosen s' a => walk_follows hserves depth s chosen s' a) hfollow (hsim.enter package)
    exact ⟨b, hb, hsim'.leave package⟩

/-! ## The end of a walk -/

/-- A walk leaves the services being visited as they were. -/
theorem visiting_walk : ∀ (depth : ℕ) (s : State ρ) (package : Package ρ) (s' : State ρ),
    walk text choose depth s package = .ok s' → s'.visiting = s.visiting
  | 0, s, package, s', h => by cases h
  | depth + 1, s, package, s', h => by
    obtain ⟨s₁, hfollow, rfl⟩ := walk_succ_eq_ok h
    have hs₁ := visiting_follow (visiting_walk depth) hfollow
    show s₁.visiting.dropLast = s.visiting
    rw [hs₁, List.dropLast_concat]

/-- What is assumed of the packages picked: their services are among `keys`, and picking one does
not fail for depth. -/
structure Bounded (choose : Package ρ → ServiceDependency → Except Failure (Option (Package ρ)))
    (keys : List Str) : Prop where
  serves : Serves choose
  mem : ∀ package dependency chosen, choose package dependency = .ok (some chosen) →
    chosen.serviceKey ∈ keys
  ne : ∀ package dependency, choose package dependency ≠ .error .tooDeep

/-- Services being visited, with room for as many more as the depth left. -/
structure Room (keys visiting : List Str) (depth : ℕ) : Prop where
  nodup : visiting.Nodup
  subset : visiting ⊆ keys
  room : keys.length ≤ depth + visiting.length

theorem Room.enter {keys visiting : List Str} {depth : ℕ} {key : Str}
    (h : Room keys visiting depth) (hkey : key ∈ keys) (hout : key ∉ visiting) :
    ∃ d, depth = d + 1 ∧ Room keys (visiting ++ [key]) d := by
  have hnodup : (visiting ++ [key]).Nodup := by
    rw [List.nodup_append]
    refine ⟨h.nodup, List.nodup_singleton _, ?_⟩
    rintro x hx y hy rfl
    exact hout (List.mem_singleton.mp hy ▸ hx)
  have hsubset : visiting ++ [key] ⊆ keys :=
    List.append_subset.mpr ⟨h.subset, by simpa using hkey⟩
  have hle := (List.subperm_of_subset hnodup hsubset).length_le
  have hroom := h.room
  rw [List.length_append, List.length_singleton] at hle
  obtain ⟨d, rfl⟩ : ∃ d, depth = d + 1 := ⟨depth - 1, by omega⟩
  refine ⟨d, rfl, hnodup, hsubset, ?_⟩
  rw [List.length_append, List.length_singleton]
  omega

theorem follow_ne_tooDeep {keys : List Str} (hbounded : Bounded choose keys) {depth : ℕ}
    {package : Package ρ}
    (hrecur : ∀ s chosen, Room keys s.visiting depth → chosen.serviceKey ∈ keys →
      chosen.serviceKey ∉ s.visiting → walk text choose depth s chosen ≠ .error .tooDeep) :
    ∀ {ds : List ServiceDependency} {s : State ρ}, Room keys s.visiting depth →
      follow text choose (walk text choose depth) package s ds ≠ .error .tooDeep
  | [], s, _ => fun h => by cases h
  | d :: ds, s, hroom => by
    unfold follow
    split_ifs with hvisiting
    · exact fun h => by cases h
    · rcases hchoose : choose package d with e | _ | chosen
      · have hne := hbounded.ne package d
        rw [hchoose] at hne
        dsimp only
        exact fun h => hne (congrArg _ (Except.error.inj h))
      · exact follow_ne_tooDeep hbounded hrecur hroom
      · have hkey := hbounded.serves package d chosen hchoose
        have hbindNe : bind (walk text choose depth) s d.serviceKey chosen ≠ .error .tooDeep := by
          unfold bind
          split
          · split_ifs
            · exact fun h => by cases h
            · exact fun h => by cases h
          · exact hrecur _ chosen hroom (hbounded.mem package d chosen hchoose) (hkey ▸ hvisiting)
        rcases hbind : bind (walk text choose depth) s d.serviceKey chosen with e | s₁
        · dsimp only
          rw [hbind] at hbindNe ⊢
          exact hbindNe
        · dsimp only
          rw [hbind]
          have hs₁ : s₁.visiting = s.visiting := by
            rcases bind_eq_ok hbind with ⟨existing, -, -, rfl⟩ | ⟨-, hbind⟩
            · rfl
            · have hs₁ := visiting_walk depth _ chosen s₁ hbind
              exact hs₁
          refine follow_ne_tooDeep hbounded hrecur ?_
          show Room keys s₁.visiting depth
          rw [hs₁]
          exact hroom

/-- **A walk no deeper than there are services comes to an end.** -/
theorem walk_ne_tooDeep {keys : List Str} (hbounded : Bounded choose keys) :
    ∀ (depth : ℕ) (s : State ρ) (package : Package ρ), Room keys s.visiting depth →
      package.serviceKey ∈ keys → package.serviceKey ∉ s.visiting →
      walk text choose depth s package ≠ .error .tooDeep := by
  intro depth
  induction depth with
  | zero =>
    intro s package hroom hkey hout
    obtain ⟨d, hd, -⟩ := hroom.enter hkey hout
    omega
  | succ depth ih =>
    intro s package hroom hkey hout
    obtain ⟨d, hd, hroom'⟩ := hroom.enter hkey hout
    obtain rfl : depth = d := by omega
    unfold walk
    rw [if_neg hout]
    have hne : follow text choose (walk text choose depth) package
        { s with visiting := s.visiting ++ [package.serviceKey] } (dependencies package) ≠
          .error .tooDeep := follow_ne_tooDeep hbounded ih hroom'
    rcases hfollow : follow text choose (walk text choose depth) package
        { s with visiting := s.visiting ++ [package.serviceKey] } (dependencies package) with e | s₁
    · rw [hfollow] at hne
      dsimp only
      exact fun h => hne (congrArg _ (Except.error.inj h))
    · dsimp only
      exact fun h => by cases h

end AI2Apps.Packages.Resolver
