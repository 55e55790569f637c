import AI2Apps.Agents.Walks

/-!
# Trees of runs

A delegated run names its parent, so the runs of a table form trees.  The
recursive query of `list_descendants` walks one tree from its root; it is modelled
generation by generation, and shown to return every descendant once.

* `listDescendants`: the query.
* `Below`, `InTree`: the descendants of a run.
* `Forest`: parents are in the table, one level up; `forest_after` keeps it.
* `mem_listDescendants`, `nodup_listDescendants`: what the query returns.
-/

namespace AI2Apps.Agents

open Clock Faults

/-! ## The listing -/

def children (db : Db) (runId : Str) : List Run :=
  db.runs.rows.filter fun r => r.parentRunId = some runId

/-- The recursive query: the given runs, their children, and so on. -/
def generations (db : Db) : ℕ → List Run → List Run
  | 0, _ => []
  | n + 1, runs => runs ++ generations db n (runs.flatMap fun r => children db r.id)

/-- `ORDER BY run.depth, run.created_at, run.id`. -/
def treeOrder (r r' : Run) : Prop :=
  r.depth < r'.depth ∨ r.depth = r'.depth ∧
    (r.createdAt.micros < r'.createdAt.micros ∨
      r.createdAt.micros = r'.createdAt.micros ∧ ¬ r'.id < r.id)

instance : DecidableRel treeOrder := fun _ _ => by unfold treeOrder; infer_instance

/-- `list_descendants`: no chain of parents is longer than the table. -/
def listDescendants (db : Db) (runId : Str) : List Run :=
  (generations db db.runs.rows.length (children db runId)).insertionSort treeOrder

/-! ## Trees -/

/-- The run is a descendant of the root. -/
inductive Below (db : Db) (root : Str) : Str → Prop
  | child {r : Run} (hr : r ∈ db.runs.rows) (hparent : r.parentRunId = some root) : Below db root r.id
  | descend {p : Str} {r : Run} (hp : Below db root p) (hr : r ∈ db.runs.rows)
      (hparent : r.parentRunId = some p) : Below db root r.id

/-- The root or a descendant. -/
def InTree (db : Db) (root id : Str) : Prop := id = root ∨ Below db root id

/-- The parent of a delegated run is in the table, one level up. -/
def Forest (db : Db) : Prop :=
  ∀ r ∈ db.runs.rows, ∀ p, r.parentRunId = some p →
    ∃ parent, db.run? p = some parent ∧ r.depth = parent.depth + 1

section Trees

variable {db : Db} {root : Str}

variable {r : Run} {n k : ℕ} {runs : List Run}

theorem mem_children {runId : Str} :
    r ∈ children db runId ↔ r ∈ db.runs.rows ∧ r.parentRunId = some runId := by
  unfold children
  rw [List.mem_filter, decide_eq_true_eq]

/-- The run is a row that lies so many levels below the root. -/
inductive Level (db : Db) (root : Str) : ℕ → Run → Prop
  | child {r : Run} (hr : r ∈ children db root) : Level db root 0 r
  | descend {n : ℕ} {p r : Run} (hp : Level db root n p) (hr : r ∈ children db p.id) :
      Level db root (n + 1) r

theorem Level.mem (h : Level db root n r) : r ∈ db.runs.rows := by
  cases h with
  | child hr => exact (mem_children.mp hr).1
  | descend _ hr => exact (mem_children.mp hr).1

theorem Level.isBelow (h : Level db root n r) : Below db root r.id := by
  induction h with
  | child hr => exact .child (mem_children.mp hr).1 (mem_children.mp hr).2
  | descend _ hr ih => exact .descend ih (mem_children.mp hr).1 (mem_children.mp hr).2

theorem Below.level {id : Str} (h : Below db root id) :
    ∃ n r, Level db root n r ∧ r.id = id := by
  induction h with
  | child hr hparent => exact ⟨0, _, .child (mem_children.mpr ⟨hr, hparent⟩), rfl⟩
  | descend _ hr hparent ih =>
    obtain ⟨n, p, hp, rfl⟩ := ih
    exact ⟨n + 1, _, .descend hp (mem_children.mpr ⟨hr, hparent⟩), rfl⟩

/-- The children of one level are the next. -/
theorem mem_flatMap_children (hruns : ∀ r, r ∈ runs ↔ Level db root k r) (r : Run) :
    r ∈ (runs.flatMap fun p => children db p.id) ↔ Level db root (k + 1) r := by
  rw [List.mem_flatMap]
  constructor
  · rintro ⟨p, hp, hr⟩
    exact .descend ((hruns p).mp hp) hr
  · intro h
    cases h with
    | descend hp hr => exact ⟨_, (hruns _).mpr hp, hr⟩

/-- The runs the recursive query returns. -/
theorem mem_generations (hruns : ∀ r, r ∈ runs ↔ Level db root k r) :
    r ∈ generations db n runs ↔ ∃ i < n, Level db root (k + i) r := by
  induction n generalizing k runs with
  | zero => simp [generations]
  | succ n ih =>
    rw [generations, List.mem_append, hruns, ih (mem_flatMap_children hruns)]
    constructor
    · rintro (h | ⟨i, hi, h⟩)
      · exact ⟨0, n.succ_pos, h⟩
      · exact ⟨i + 1, Nat.succ_lt_succ hi, by rwa [Nat.add_right_comm] at h⟩
    · rintro ⟨i, hi, h⟩
      cases i with
      | zero => exact .inl h
      | succ i => exact .inr ⟨i, Nat.lt_of_succ_lt_succ hi, by rwa [Nat.add_right_comm]⟩

theorem mem_children_iff_level : r ∈ children db root ↔ Level db root 0 r := by
  constructor
  · exact .child
  · intro h
    cases h with
    | child hr => exact hr

theorem mem_listDescendants_iff_level :
    r ∈ listDescendants db root ↔ ∃ i < db.runs.rows.length, Level db root i r := by
  unfold listDescendants
  rw [List.mem_insertionSort, mem_generations fun _ => mem_children_iff_level]
  simp only [Nat.zero_add]

/-! ### Depths -/

theorem Level.depth (hforest : Forest db) (h : Level db root n r) :
    ∃ top, db.run? root = some top ∧ r.depth = top.depth + n + 1 := by
  induction h with
  | child hr =>
    obtain ⟨hmem, hparent⟩ := mem_children.mp hr
    obtain ⟨top, htop, hdepth⟩ := hforest _ hmem _ hparent
    exact ⟨top, htop, hdepth⟩
  | descend hp hr ih =>
    obtain ⟨top, htop, hdepth⟩ := ih
    obtain ⟨hmem, hparent⟩ := mem_children.mp hr
    obtain ⟨parent, hget, hdepth'⟩ := hforest _ hmem _ hparent
    rw [show db.run? _ = some _ from Table.get?_of_mem hp.mem] at hget
    obtain rfl := Option.some.inj hget
    exact ⟨top, htop, by omega⟩

/-- A run that is added to what is counted raises the count. -/
theorem countP_lt {α : Type} {p q : α → Bool} {xs : List α} {x : α} (hpq : ∀ y, p y = true → q y = true)
    (hx : x ∈ xs) (hp : p x = false) (hq : q x = true) : xs.countP p < xs.countP q := by
  induction xs with
  | nil => exact absurd hx List.not_mem_nil
  | cons y ys ih =>
    rw [List.countP_cons, List.countP_cons]
    rcases List.mem_cons.mp hx with rfl | hmem
    · have hle := List.countP_mono_left fun z (_ : z ∈ ys) => hpq z
      rw [if_neg (by simp [hp]), if_pos hq]
      omega
    · have hlt := ih hmem
      have hy := hpq y
      split_ifs <;> simp_all
      omega

/-- The chain of parents above a run is no longer than the table. -/
theorem Level.lt_length (hforest : Forest db) (h : Level db root n r) :
    n < db.runs.rows.length := by
  suffices hcount : n < db.runs.rows.countP fun s => s.depth < r.depth from
    hcount.trans_le List.countP_le_length
  induction h with
  | child hr =>
    obtain ⟨hmem, hparent⟩ := mem_children.mp hr
    obtain ⟨top, htop, hdepth⟩ := hforest _ hmem _ hparent
    exact List.countP_pos_iff.mpr ⟨top, Table.mem_of_get? htop, by simp; omega⟩
  | @descend n p r hp hr ih =>
    obtain ⟨hmem, hparent⟩ := mem_children.mp hr
    obtain ⟨parent, hget, hdepth⟩ := hforest _ hmem _ hparent
    rw [show db.run? _ = some _ from Table.get?_of_mem hp.mem] at hget
    obtain rfl := Option.some.inj hget
    have hlt := countP_lt (p := fun s : Run => decide (s.depth < p.depth))
      (q := fun s : Run => decide (s.depth < r.depth)) (fun s hs => ?_) hp.mem (by simp) (by simp; omega)
    · omega
    · simp only [decide_eq_true_eq] at hs ⊢
      omega

/-- **The listing is complete**: it holds exactly the descendants. -/
theorem mem_listDescendants (hforest : Forest db) :
    r ∈ listDescendants db root ↔ r ∈ db.runs.rows ∧ Below db root r.id := by
  rw [mem_listDescendants_iff_level]
  constructor
  · rintro ⟨i, _, h⟩
    exact ⟨h.mem, h.isBelow⟩
  · rintro ⟨hmem, hbelow⟩
    obtain ⟨n, r', h, hid⟩ := hbelow.level
    obtain rfl := Table.eq_of_key_eq h.mem hmem hid
    exact ⟨n, h.lt_length hforest, h⟩

/-- A run is not its own descendant. -/
theorem not_below_self (hforest : Forest db) : ¬ Below db root root := by
  intro h
  obtain ⟨n, r, hr, hid⟩ := h.level
  obtain ⟨top, htop, hdepth⟩ := hr.depth hforest
  rw [← hid, show db.run? r.id = some r from Table.get?_of_mem hr.mem] at htop
  obtain rfl := Option.some.inj htop
  omega

theorem nodup_children (runId : Str) : (children db runId).Nodup :=
  (List.Nodup.of_map _ db.runs.nodup).filter _

/-- The recursive query meets each descendant once. -/
theorem nodup_generations (hforest : Forest db) (hruns : ∀ r, r ∈ runs ↔ Level db root k r)
    (hnodup : runs.Nodup) :
    (generations db n runs).Nodup := by
  induction n generalizing k runs with
  | zero => exact List.nodup_nil
  | succ n ih =>
    have hnext := mem_flatMap_children hruns
    have hflat : (runs.flatMap fun p => children db p.id).Nodup := by
      refine List.nodup_flatMap.mpr ⟨fun p _ => nodup_children p.id, ?_⟩
      refine hnodup.pairwise_of_forall_ne fun p hp p' hp' hne => ?_
      -- two parents with a common child have one identifier
      refine List.disjoint_left.mpr fun r hr hr' => hne ?_
      have hparent := (mem_children.mp hr).2.symm.trans (mem_children.mp hr').2
      exact Table.eq_of_key_eq ((hruns p).mp hp).mem ((hruns p').mp hp').mem (Option.some.inj hparent)
    refine List.Nodup.append hnodup (ih hnext hflat) (List.disjoint_left.mpr fun r hr hr' => ?_)
    obtain ⟨i, -, hlevel⟩ := (mem_generations hnext).mp hr'
    obtain ⟨top, htop, hdepth⟩ := ((hruns r).mp hr).depth hforest
    obtain ⟨top', htop', hdepth'⟩ := hlevel.depth hforest
    obtain rfl := Option.some.inj (htop.symm.trans htop')
    omega

theorem nodup_listDescendants (hforest : Forest db) : (listDescendants db root).Nodup :=
  (List.perm_insertionSort treeOrder _).nodup_iff.mpr
    (nodup_generations hforest (fun _ => mem_children_iff_level) (nodup_children root))

end Trees

/-! ## Trees over histories -/

/-- What a call never changes of a run. -/
theorem Moved.lineage {env : Env} {db : Db} {op : Op} {r r' : Run} (h : Moved env db op r r') :
    r'.id = r.id ∧ r'.parentRunId = r.parentRunId ∧ r'.depth = r.depth := by
  cases h <;> exact ⟨rfl, rfl, rfl⟩

/-- **Every call keeps the runs a forest.** -/
theorem forest_after {env : Env} {db : Db} (op : Op) (hforest : Forest db) :
    Forest (db.after env op) := by
  have heffect : Effect env op db (db.after env op) := after_effect op
  have hold : ∀ id r, db.run? id = some r →
      ∃ r', (db.after env op).run? id = some r' ∧ r'.depth = r.depth := fun id r hr => by
    obtain ⟨r', hr', hmoved⟩ := heffect.old id r hr
    exact ⟨r', hr', hmoved.lineage.2.2⟩
  intro r' hr' p hp
  have hget : (db.after env op).run? r'.id = some r' := Table.get?_of_mem hr'
  cases hbefore : db.run? r'.id with
  | some r =>
    obtain ⟨s, hs, hmoved⟩ := heffect.old _ r hbefore
    obtain rfl := Option.some.inj (hget.symm.trans hs)
    obtain ⟨parent, hparent, hdepth⟩ := hforest r (Table.mem_of_get? hbefore) p
      (hmoved.lineage.2.1 ▸ hp)
    obtain ⟨parent', hparent', hdepth'⟩ := hold p parent hparent
    exact ⟨parent', hparent', by rw [hmoved.lineage.2.2, hdepth, hdepth']⟩
  | none =>
    have hcreated := heffect.new _ r' hbefore hget
    cases op with
    | createRun now runId sessionId agentKey input key priority parentRunId delegation budget =>
      obtain ⟨-, hcreated⟩ := hcreated
      obtain ⟨parent, hparent, -, hdepth⟩ := hcreated.active p (hcreated.parentRunId ▸ hp)
      obtain ⟨parent', hparent', hdepth'⟩ := hold p parent hparent
      exact ⟨parent', hparent', by rw [hdepth, hdepth']⟩
    | _ => exact hcreated.elim

/-- Every history does. -/
theorem forest_run {env : Env} {db : Db} {ops : List Op} (hforest : Forest db) :
    Forest (db.run env ops) := by
  induction ops generalizing db with
  | nil => exact hforest
  | cons op ops ih => exact ih (forest_after op hforest)

end AI2Apps.Agents
