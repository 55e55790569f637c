import AI2Apps.Lib.Dict
import AI2Apps.Lib.StableSort
import AI2Apps.Lib.TextOrder
import Mathlib.Data.List.Lex
import Mathlib.Data.Prod.Lex

/-!
# The dependency resolver

`resolve` plans the installation of a root package: it walks the services the root requires,
binds each to the best package that is a candidate or active, and orders the candidates it uses
so that a package follows what it depends on.

* `Inspected`, `InstalledPackage`, `Package`: the records a service can be bound to.
* `Repository`: the root, the candidates and the rows of the package table.
* `choices`, `choose`: the package picked for a dependency.
* `walk`, `resolve`: the plan.

The order of versions, their normal form and the meaning of a range are parameters.
-/

namespace AI2Apps.Packages.Resolver

/-- An entry of `requires.services`, its fields as both readers take them. -/
structure ServiceEntry where
  id : Str
  version : Str
  optional : Bool
  capabilities : List Str
  deriving DecidableEq

/-- What is read of a manifest. -/
structure Manifest where
  services : List ServiceEntry
  capabilities : List Str
  deriving DecidableEq

/-- `InspectedServicePackage`.  The fields that are compared and not read are `rest`: the path of
the archive, its signature and attestations, and the rest of the manifest. -/
structure Inspected (ρ : Type) where
  serviceKey : Str
  version : Str
  digest : Str
  manifest : Manifest
  rest : ρ
  deriving DecidableEq

inductive PackageStatus where
  | installed
  | active
  | retained
  | rejected
  | uninstalled
  deriving DecidableEq

/-- `InstalledPackageRecord`. -/
structure InstalledPackage where
  serviceKey : Str
  packageVersion : Str
  packageDigest : Str
  manifest : Manifest
  status : PackageStatus
  deriving DecidableEq

/-- A record of `available`. -/
inductive Package (ρ : Type) where
  | inspected (package : Inspected ρ)
  | installed (package : InstalledPackage)
  deriving DecidableEq

namespace Package

variable {ρ : Type}

def serviceKey : Package ρ → Str
  | inspected p => p.serviceKey
  | installed r => r.serviceKey

def version : Package ρ → Str
  | inspected p => p.version
  | installed r => r.packageVersion

def digest : Package ρ → Str
  | inspected p => p.digest
  | installed r => r.packageDigest

def manifest : Package ρ → Manifest
  | inspected p => p.manifest
  | installed r => r.manifest

/-- `isinstance(package, InspectedServicePackage)`. -/
def inspected? : Package ρ → Option (Inspected ρ)
  | inspected p => some p
  | installed _ => none

end Package

structure ServiceDependency where
  serviceKey : Str
  versionSpec : Str
  optional : Bool
  deriving DecidableEq

/-- `packaging`: the order of versions, up to what it calls equal; `str(Version(text))`; and
whether a specifier set admits a version. -/
structure Packaging (ν : Type) where
  parse : Str → ν
  text : Str → Str
  admits : Str → Str → Bool

/-- The root, the candidates, and the rows of the package table as `installed` lists them. -/
structure Repository (ρ : Type) where
  root : Inspected ρ
  candidates : List (Inspected ρ)
  rows : List InstalledPackage

structure DependencyLock where
  serviceKey : Str
  packageDigest : Str
  dependencyKey : Str
  dependencyVersion : Str
  dependencyDigest : Str
  optional : Bool
  deriving DecidableEq

structure InstallPlan (ρ : Type) where
  rootDigest : Str
  packages : List (Inspected ρ)
  locks : List DependencyLock
  replacing : List (Str × Str)
  deriving DecidableEq

/-- The `PackageError`s, and a walk deeper than the model allows for. -/
inductive Failure where
  | dependencyCycle (cycle : List Str)
  | dependencyCapabilityMissing (missing : List Str)
  | dependencyUnresolved (serviceKey versionSpec : Str)
  | dependencyConflict (serviceKey : Str)
  | tooDeep
  deriving DecidableEq

variable {ν ρ : Type}

/-! ## The package picked for a dependency -/

/-- Everything that `available` lists, in order. -/
def Repository.records (r : Repository ρ) : List (Package ρ) :=
  (r.root :: r.candidates).map .inspected ++
    (r.rows.filter fun row => row.status = .active).map .installed

/-- `available.get(key, [])`. -/
def Repository.available (r : Repository ρ) (key : Str) : List (Package ρ) :=
  r.records.filter fun p => p.serviceKey = key

/-- `repository.active`. -/
def Repository.active (r : Repository ρ) (key : Str) : Option InstalledPackage :=
  r.rows.find? fun row => row.serviceKey = key ∧ row.status = .active

def dependencies (package : Package ρ) : List ServiceDependency :=
  package.manifest.services.map fun item => ⟨item.id, item.version, item.optional⟩

def requiredCapabilities (package : Package ρ) (serviceKey : Str) : List Str :=
  match package.manifest.services.find? fun item => item.id = serviceKey with
  | some item => item.capabilities
  | none => []

def packageCapabilities (package : Package ρ) : List Str := package.manifest.capabilities

/-- The text the specifier set is made of. -/
def specifier (versionSpec : Str) : Str := if versionSpec = str "*" then [] else versionSpec

def versionChoices (packaging : Packaging ν) (r : Repository ρ) (dependency : ServiceDependency) :
    List (Package ρ) :=
  (r.available dependency.serviceKey).filter fun item =>
    packaging.admits (specifier dependency.versionSpec) item.version

/-- `(item[0], item[1])`. -/
def rank (packaging : Packaging ν) (item : Package ρ) : ν ×ₗ Str :=
  toLex (packaging.parse item.version, item.digest)

/-- Not `required - package_capabilities(item)`. -/
def provides (required : List Str) (item : Package ρ) : Prop :=
  ∀ capability ∈ required, capability ∈ packageCapabilities item

instance (required : List Str) (item : Package ρ) : Decidable (provides required item) :=
  inferInstanceAs (Decidable (∀ capability ∈ required, capability ∈ packageCapabilities item))

section Walk

variable [LinearOrder ν]

def choices (packaging : Packaging ν) (r : Repository ρ) (package : Package ρ)
    (dependency : ServiceDependency) : List (Package ρ) :=
  StableSort.sortedDesc (rank packaging)
    ((versionChoices packaging r dependency).filter fun item =>
      provides (requiredCapabilities package dependency.serviceKey) item)

/-- `choices[0]`. -/
def pick (packaging : Packaging ν) (r : Repository ρ) (package : Package ρ)
    (dependency : ServiceDependency) : Option (Package ρ) :=
  (choices packaging r package dependency).head?

/-- `sorted(required - provided)`. -/
def missing (required : List Str) (items : List (Package ρ)) : List Str :=
  (required.dedup.filter fun capability => ∀ item ∈ items, capability ∉ packageCapabilities item).insertionSort
    (· ≤ ·)

/-- The package picked, or none where an optional dependency is passed over. -/
def choose (packaging : Packaging ν) (r : Repository ρ) (package : Package ρ)
    (dependency : ServiceDependency) : Except Failure (Option (Package ρ)) :=
  let required := requiredCapabilities package dependency.serviceKey
  let versions := versionChoices packaging r dependency
  match pick packaging r package dependency with
  | some chosen => .ok (some chosen)
  | none =>
    if dependency.optional then .ok none
    else if versions ≠ [] ∧ required ≠ [] then
      .error (.dependencyCapabilityMissing (missing required versions))
    else .error (.dependencyUnresolved dependency.serviceKey dependency.versionSpec)

end Walk

/-! ## The walk -/

/-- The variables that `walk` shares. -/
structure State (ρ : Type) where
  selected : Dict Str (Package ρ)
  locks : List DependencyLock
  visiting : List Str
  installOrder : List (Inspected ρ)

section Walk

variable (text : Str → Str) (choose : Package ρ → ServiceDependency → Except Failure (Option (Package ρ)))

/-- `visiting[visiting.index(key):] + [key]`. -/
def cycle (visiting : List Str) (key : Str) : List Str := visiting.drop (visiting.idxOf key) ++ [key]

/-- The package selected for a service is kept, and must have the digest of the one picked; a
service without one is bound to it and walked. -/
def bind (recur : State ρ → Package ρ → Except Failure (State ρ)) (s : State ρ) (key : Str)
    (chosen : Package ρ) : Except Failure (State ρ) :=
  match s.selected.get? key with
  | some existing =>
    if existing.digest ≠ chosen.digest then .error (.dependencyConflict key) else .ok s
  | none => recur { s with selected := s.selected.put key chosen } chosen

def lock (s : State ρ) (package : Package ρ) (dependency : ServiceDependency) (chosen : Package ρ) :
    State ρ :=
  { s with
    locks := s.locks ++
      [⟨package.serviceKey, package.digest, dependency.serviceKey, text chosen.version, chosen.digest,
        dependency.optional⟩] }

/-- The loop over the dependencies of a package. -/
def follow (recur : State ρ → Package ρ → Except Failure (State ρ)) (package : Package ρ) :
    State ρ → List ServiceDependency → Except Failure (State ρ)
  | s, [] => .ok s
  | s, dependency :: rest =>
    if dependency.serviceKey ∈ s.visiting then
      .error (.dependencyCycle (cycle s.visiting dependency.serviceKey))
    else
      match choose package dependency with
      | .error e => .error e
      | .ok none => follow recur package s rest
      | .ok (some chosen) =>
        match bind recur s dependency.serviceKey chosen with
        | .error e => .error e
        | .ok s => follow recur package (lock text s package dependency chosen) rest

/-- A package that is left was visited last. -/
def leave [DecidableEq ρ] (s : State ρ) (package : Package ρ) : State ρ :=
  { s with
    visiting := s.visiting.dropLast
    installOrder :=
      match package.inspected? with
      | some p => if p ∈ s.installOrder then s.installOrder else s.installOrder ++ [p]
      | none => s.installOrder }

/-- `walk`, to a depth. -/
def walk [DecidableEq ρ] : ℕ → State ρ → Package ρ → Except Failure (State ρ)
  | 0, _, _ => .error .tooDeep
  | depth + 1, s, package =>
    if package.serviceKey ∈ s.visiting then
      .error (.dependencyCycle (cycle s.visiting package.serviceKey))
    else
      match follow text choose (walk depth) package
          { s with visiting := s.visiting ++ [package.serviceKey] } (dependencies package) with
      | .error e => .error e
      | .ok s => .ok (leave s package)

end Walk

/-- What the root is walked from. -/
def initial (r : Repository ρ) : State ρ where
  selected := Dict.empty.put r.root.serviceKey (.inspected r.root)
  locks := []
  visiting := []
  installOrder := []

/-- The active packages that the plan takes the place of. -/
def replacing (r : Repository ρ) (packages : List (Inspected ρ)) : List (Str × Str) :=
  packages.filterMap fun package =>
    match r.active package.serviceKey with
    | some active =>
      if active.packageDigest ≠ package.digest then some (package.serviceKey, active.packageDigest) else none
    | none => none

/-- `resolve`.  A walk is no deeper than there are records. -/
def resolve [LinearOrder ν] [DecidableEq ρ] (packaging : Packaging ν) (r : Repository ρ) :
    Except Failure (InstallPlan ρ) :=
  match walk packaging.text (choose packaging r) r.records.length (initial r) (.inspected r.root) with
  | .error e => .error e
  | .ok s => .ok ⟨r.root.digest, s.installOrder, s.locks, replacing r s.installOrder⟩

end AI2Apps.Packages.Resolver
