import AI2Apps.AppUpdate.CrashSafety

/-!
# Histories of App updates

One transaction after another on one file system; each ends by returning, by throwing,
or with its process, which can die at any point.

The lock is a file, so it outlives the process: a transaction that dies while it holds
the lock, or cannot remove it, leaves it behind, and from then on every transaction is
refused as if another one were running.

* `System`, `Event`, `System.run`: the histories.
* `Kept`, `NotRefused`, `Harmless`: what is promised, and the condition.
* `updates_hold`: in every history.
-/

namespace AI2Apps.AppUpdate

open Programs

variable {α : Type}

/-! ## Histories -/

inductive Outcome where
  | returned (result : AppUpdateResult)
  | threw (error : Failure)
  | died
  deriving DecidableEq

/-- A transaction under way: what is left of it, and what the paths held when it began. -/
structure Running (α : Type) where
  policy : Policy α
  before : FileSystem α
  rest : Transaction α AppUpdateResult

structure Ended (α : Type) where
  policy : Policy α
  before : FileSystem α
  outcome : Outcome

/-- One transaction runs at a time. -/
inductive Phase (α : Type) where
  | idle (last : Option (Ended α))
  | running (r : Running α)

structure System (α : Type) where
  world : World α
  phase : Phase α

def System.start (files : FileSystem α) : System α := ⟨⟨files, false, false⟩, .idle none⟩

inductive Event (α : Type) where
  /-- Another candidate has been downloaded. -/
  | download (candidate : Option (Node α))
  | execute (policy : Policy α)
  /-- The next operation of the transaction. -/
  | operation (c : Chance α)
  /-- The process dies, in the middle of the next operation or before it. -/
  | death (c : Chance α)

def Running.ended (r : Running α) (outcome : Outcome) : Phase α :=
  .idle (some ⟨r.policy, r.before, outcome⟩)

/-- A transaction goes on with what is left of it. -/
def Running.proceed (r : Running α) : Transaction α AppUpdateResult → Phase α
  | .pure result => r.ended (.returned result)
  | .throw error => r.ended (.threw error)
  | .call op next => .running { r with rest := .call op next }

def System.after (s : System α) (event : Event α) : System α :=
  match event, s.phase with
  | .download candidate, .idle last => ⟨s.world.put .candidateApp candidate, .idle last⟩
  | .execute policy, .idle _ =>
    ⟨⟨s.world.files, false, false⟩, .running ⟨policy, s.world.files, AppUpdate.execute policy⟩⟩
  | .operation c, .running r =>
    ⟨(advance (semantics α) c r.rest s.world).2,
      r.proceed (advance (semantics α) c r.rest s.world).1⟩
  | .death c, .running r => ⟨cutOff (semantics α) c r.rest s.world, r.ended .died⟩
  | _, _ => s

def System.run (s : System α) : List (Event α) → System α
  | [] => s
  | event :: rest => (s.after event).run rest

/-! ## What is promised -/

/-- What a transaction left. -/
def Ended.Holds (e : Ended α) (w : World α) : Prop :=
  match e.outcome with
  | .returned _ => Updated e.policy (e.before .installedApp) (e.before .candidateApp) w
  | .threw error => Safe (e.before .installedApp) w ∧
      ((∀ reason, error ≠ .transaction (.rollbackFailed reason)) →
        w.files .installedApp = e.before .installedApp)
  | .died => Safe (e.before .installedApp) w

/-- The previous App is safe while a transaction runs, and where it has ended. -/
def Kept (s : System α) : Prop :=
  match s.phase with
  | .running r => Safe (r.before .installedApp) s.world
  | .idle last => ∀ e, last = some e → e.Holds s.world

/-- The last transaction was not refused; no other was running when it began. -/
def NotRefused (s : System α) : Prop :=
  ∀ e, s.phase = .idle (some e) → e.outcome ≠ .threw (.transaction .updateInProgress)

/-- The process does not die, and the removal of the lock does not fail, while the lock
file is there and an App is installed. -/
def Harmless (s : System α) (event : Event α) : Prop :=
  match event, s.phase with
  | .operation c, .running r =>
    (∃ next, r.rest = .call (.removeItem .lock) next) →
      c.fault = none ∨ s.world.files.isApp .installedApp = false
  | .death _, .running _ => ¬ s.world.files.Blocked
  | _, _ => True

/-- Every event of the history meets the condition when it comes. -/
def HarmlessThroughout (s : System α) : List (Event α) → Prop
  | [] => True
  | event :: rest => Harmless s event ∧ HarmlessThroughout (s.after event) rest

/-! ## The invariants -/

/-- What is left of a transaction ends as the whole of it would have. -/
def Running.OnTrack (r : Running α) (w : World α) : Prop :=
  wpc (semantics α)
    (fun _ w' => Updated r.policy (r.before .installedApp) (r.before .candidateApp) w' ∧ Unlocked w')
    (fun e w' => Thrown (r.before .installedApp) r.before.Blocked e w' ∧
      (¬ r.before.Blocked → Unlocked w'))
    (Safe (r.before .installedApp)) r.rest w

/-- A transaction under way is on track and asks for an operation; the last one left
what it promised. -/
def Invariant (s : System α) : Prop :=
  match s.phase with
  | .running r => r.OnTrack s.world ∧ ∃ op next, r.rest = .call op next
  | .idle last => ∀ e, last = some e → e.Holds s.world

/-- No lock is left beside an App. -/
def Open (s : System α) : Prop :=
  match s.phase with
  | .running r => ¬ r.before.Blocked ∧ s.world.lockLeft = false
  | .idle last => ¬ s.world.files.Blocked ∧
      ∀ e, last = some e → e.outcome ≠ .threw (.transaction .updateInProgress)

/-! ## Steps -/

theorem isApp_put_of_ne {w : World α} {path other : Path} (h : other ≠ path)
    (node : Option (Node α)) : (w.put path node).files.isApp other = w.files.isApp other := by
  rw [FileSystem.isApp, World.files_put, if_neg h, FileSystem.isApp]

/-- A removal that is cut off takes no path away and makes no App. -/
theorem blocked_of_removalCut {w : World α} {path : Path} {remainder : α}
    (h : (w.removalCut path remainder).files.Blocked) : w.files.Blocked := by
  unfold World.removalCut at h
  split at h
  · rename_i contents hcontents
    obtain ⟨hlock, happ⟩ := h
    constructor
    · intro hnone
      rw [World.files_put] at hlock
      split at hlock
      · rename_i hpath
        rw [hpath, hcontents] at hnone
        exact nomatch hnone
      · exact hlock hnone
    · by_cases hpath : Path.installedApp = path
      · rw [hpath, FileSystem.isApp, hcontents]
        rfl
      · rwa [isApp_put_of_ne hpath] at happ
  · exact h

theorem blocked_of_cut {op : FileOp α} {c : Chance α} {w : World α}
    (h : (cut op c w).files.Blocked) : w.files.Blocked := by
  cases op with
  | copyItem source uuid =>
    replace h : (w.copyCut (.staged uuid) c.debris).files.Blocked := h
    obtain ⟨node, hnode⟩ := w.copyCut_eq (.staged uuid) c.debris
    rw [hnode] at h
    refine ⟨?_, ?_⟩
    · simpa using h.1
    · exact (isApp_put_of_ne (by simp) node).symm.trans h.2
  | removeItem path => exact blocked_of_removalCut h
  | fileExists | resourceValues | openExclusive | uuid | moveItem | validate | healthCheck =>
    exact h

/-- Only the removal of the lock notes that the lock is left. -/
theorem lockLeft_perform {op : FileOp α} {c : Chance α} {w : World α}
    (hop : op = .removeItem .lock → c.fault = none ∨ w.files.isApp .installedApp = false) :
    (perform op c w).2.lockLeft = w.lockLeft := by
  cases op with
  | copyItem source uuid =>
    show (copy c source (.staged uuid) w).2.lockLeft = w.lockLeft
    unfold copy World.copyCut
    split
    · dsimp only
      split <;> rfl
    · split <;> rfl
  | moveItem source destination =>
    show (move c source destination w).2.lockLeft = w.lockLeft
    unfold move
    split
    · rfl
    · split <;> rfl
  | openExclusive path =>
    show (openExclusive c path w).2.lockLeft = w.lockLeft
    unfold openExclusive
    split
    · rfl
    · split <;> rfl
  | removeItem path =>
    show (remove c path w).2.lockLeft = w.lockLeft
    unfold remove
    split
    · rename_i error hfault
      by_cases hpath : path = .lock
      · subst hpath
        rcases hop rfl with h | h
        · rw [hfault] at h
          exact nomatch h
        · rw [h, Bool.and_false, Bool.or_false]
      · rw [decide_eq_false hpath, Bool.false_and, Bool.or_false]
    · split <;> rfl
  | healthCheck healthy path =>
    show (checkHealth c healthy path w).2.lockLeft = w.lockLeft
    unfold checkHealth
    split <;> rfl
  | fileExists | resourceValues | uuid | validate => rfl

theorem SameApps.holds {e : Ended α} {w w' : World α} (h : e.Holds w) (hsame : SameApps w w') :
    e.Holds w' := by
  unfold Ended.Holds at h ⊢
  split at h
  · exact h.same hsame
  · exact ⟨h.1.same hsame, fun hreason => hsame.installed.trans (h.2 hreason)⟩
  · exact h.same hsame

theorem Running.OnTrack.advance {r : Running α} {w : World α} (h : r.OnTrack w) (c : Chance α) :
    Running.OnTrack { r with rest := (Programs.advance (semantics α) c r.rest w).1 }
      (Programs.advance (semantics α) c r.rest w).2 :=
  wpc_advance (m := semantics α) c h

/-- A transaction goes on as it began, or ends as promised. -/
theorem invariant_proceed {r : Running α} {rest : Transaction α AppUpdateResult} {w : World α}
    (h : Running.OnTrack { r with rest := rest } w) : Invariant ⟨w, r.proceed rest⟩ := by
  cases rest with
  | pure result =>
    intro e he
    obtain rfl := Option.some.inj he
    exact h.1
  | throw error =>
    intro e he
    obtain rfl := Option.some.inj he
    exact ⟨h.1.safe, h.1.restored⟩
  | call op next => exact ⟨h, op, next, rfl⟩

theorem invariant_after {s : System α} (hs : Invariant s) (event : Event α) :
    Invariant (s.after event) := by
  obtain ⟨w, phase⟩ := s
  cases phase with
  | idle last =>
    cases event with
    | download candidate =>
      exact fun e he => SameApps.holds (hs e he) (.put (by simp) (by simp) candidate)
    | execute policy =>
      exact invariant_proceed (r := ⟨policy, w.files, execute policy⟩)
        (execute_spec policy ⟨w.files, false, false⟩)
    | operation c => exact hs
    | death c => exact hs
  | running r =>
    obtain ⟨htrack, op, next, hrest⟩ := hs
    cases event with
    | download candidate => exact ⟨htrack, op, next, hrest⟩
    | execute policy => exact ⟨htrack, op, next, hrest⟩
    | operation c => exact invariant_proceed (htrack.advance c)
    | death c =>
      intro e he
      obtain rfl := Option.some.inj he
      rw [Running.OnTrack, hrest] at htrack
      show Safe _ (cutOff (semantics α) c r.rest w)
      rw [hrest]
      exact (wpc_cutOff c htrack).2

theorem kept_of_invariant {s : System α} (hs : Invariant s) : Kept s := by
  obtain ⟨w, phase⟩ := s
  cases phase with
  | idle last => exact hs
  | running r =>
    obtain ⟨htrack, op, next, hrest⟩ := hs
    rw [Running.OnTrack, hrest] at htrack
    exact htrack.1.1

/-- A transaction that ends without having noted that the lock is left has not left it. -/
theorem open_proceed {r : Running α} {rest : Transaction α AppUpdateResult} {w : World α}
    (h : Running.OnTrack { r with rest := rest } w) (hopen : ¬ r.before.Blocked)
    (hleft : w.lockLeft = false) : Open ⟨w, r.proceed rest⟩ := by
  cases rest with
  | pure result =>
    refine ⟨fun hblocked => ?_, fun e he => ?_⟩
    · exact absurd (h.2 hblocked) (by simp [hleft])
    · obtain rfl := Option.some.inj he
      exact nofun
  | throw error =>
    refine ⟨fun hblocked => ?_, fun e he => ?_⟩
    · exact absurd (h.2 hopen hblocked) (by simp [hleft])
    · obtain rfl := Option.some.inj he
      exact fun hrefused => hopen (h.1.refused (Outcome.threw.inj hrefused))
  | call op next => exact ⟨hopen, hleft⟩

theorem open_after {s : System α} (hs : Invariant s) (hopen : Open s) {event : Event α}
    (hevent : Harmless s event) : Open (s.after event) := by
  obtain ⟨w, phase⟩ := s
  cases phase with
  | idle last =>
    cases event with
    | download candidate =>
      refine ⟨fun hblocked => hopen.1 ⟨?_, ?_⟩, hopen.2⟩
      · simpa [System.after] using hblocked.1
      · exact (isApp_put_of_ne (by simp) candidate).symm.trans hblocked.2
    | execute policy => exact ⟨hopen.1, rfl⟩
    | operation c => exact hopen
    | death c => exact hopen
  | running r =>
    obtain ⟨htrack, op, next, hrest⟩ := hs
    cases event with
    | download candidate => exact hopen
    | execute policy => exact hopen
    | operation c =>
      refine open_proceed (htrack.advance c) hopen.1 ?_
      rw [hrest]
      refine (lockLeft_perform fun hop => ?_).trans hopen.2
      subst hop
      exact hevent ⟨next, hrest⟩
    | death c =>
      refine ⟨fun hblocked => hevent ?_, fun e he => ?_⟩
      · replace hblocked : (cutOff (semantics α) c r.rest w).files.Blocked := hblocked
        rw [hrest] at hblocked
        exact blocked_of_cut hblocked
      · obtain rfl := Option.some.inj he
        exact nofun

theorem notRefused_of_open {s : System α} (hs : Open s) : NotRefused s := by
  intro e he
  rw [Open, he] at hs
  exact hs.2 e rfl

/-! ## Runs -/

theorem invariant_run {s : System α} (hs : Invariant s) (history : List (Event α)) :
    Invariant (s.run history) := by
  induction history generalizing s with
  | nil => exact hs
  | cons event rest ih => exact ih (invariant_after hs event)

theorem open_run {s : System α} (hs : Invariant s) (hopen : Open s) {history : List (Event α)}
    (hhistory : HarmlessThroughout s history) : Open (s.run history) := by
  induction history generalizing s with
  | nil => exact hopen
  | cons event rest ih =>
    exact ih (invariant_after hs event) (open_after hs hopen hhistory.1) hhistory.2

/-- The previous App is kept in every history, whatever fails and wherever the process
dies; and no transaction is refused as long as no lock is left beside an App. -/
theorem updates_hold (files : FileSystem α) (history : List (Event α)) :
    Kept ((System.start files).run history) ∧
      (¬ files.Blocked → HarmlessThroughout (System.start files) history →
        NotRefused ((System.start files).run history)) := by
  have hstart : Invariant (System.start files) := nofun
  refine ⟨kept_of_invariant (invariant_run hstart history), fun hfiles hhistory => ?_⟩
  exact notRefused_of_open (open_run hstart ⟨hfiles, nofun⟩ hhistory)

/-- An operation that does not fail. -/
def smooth : Event String := .operation ⟨none, "1F", none, ""⟩

/-- The old App is installed and the new one is downloaded. -/
def twoApps : FileSystem String
  | .installedApp => some (.directory "old")
  | .candidateApp => some (.directory "new")
  | _ => none

/-- Any App is accepted, and no backup may exist. -/
def lenient : Policy String := ⟨fun _ => true, fun _ => true, none, fun _ => true⟩

theorem harmless_smooth (s : System String) : Harmless s smooth := by
  obtain ⟨w, phase⟩ := s
  cases phase with
  | idle last => exact trivial
  | running r => exact fun _ => Or.inl rfl

theorem harmlessThroughout_smooth {s : System String} {history : List (Event String)}
    (h : ∀ event ∈ history, event = smooth ∨ event = .execute lenient) :
    HarmlessThroughout s history := by
  induction history generalizing s with
  | nil => exact trivial
  | cons event rest ih =>
    refine ⟨?_, ih fun other hother => h other (List.mem_cons_of_mem event hother)⟩
    rcases h event List.mem_cons_self with rfl | rfl
    · exact harmless_smooth s
    · cases hphase : s.phase <;> simp [Harmless]

/-- One update that succeeds, and a second that finds the backup of the first. -/
theorem updates_hold_twice :
    let history := .execute lenient :: (List.replicate 16 smooth ++
      .execute lenient :: List.replicate 12 smooth)
    let s := (System.start twoApps).run history
    s.phase = .idle (some ⟨lenient, (System.start twoApps |>.run (history.take 17)).world.files,
      .threw (.transaction .backupAlreadyExists)⟩) ∧ Kept s ∧ NotRefused s := by
  refine ⟨rfl, (updates_hold twoApps _).1, (updates_hold twoApps _).2 ?_ ?_⟩
  · exact fun h => h.1 rfl
  · refine harmlessThroughout_smooth fun event hevent => ?_
    simp only [List.mem_cons, List.mem_append, List.mem_replicate] at hevent
    rcases hevent with h | ⟨-, h⟩ | h | ⟨-, h⟩
    · exact Or.inr h
    · exact Or.inl h
    · exact Or.inr h
    · exact Or.inl h

/-- The process dies right after it has created the lock file; the transaction that is
begun after that is refused, though none is running. -/
theorem refused_after_death :
    ¬ NotRefused ((System.start twoApps).run (.execute lenient :: (List.replicate 5 smooth ++
      .death ⟨none, "1F", none, ""⟩ :: .execute lenient :: List.replicate 5 smooth))) :=
  fun h => h _ rfl rfl

end AI2Apps.AppUpdate
