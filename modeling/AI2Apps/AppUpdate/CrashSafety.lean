import AI2Apps.AppUpdate.Operations

/-!
# What the App update transaction leaves

The previous App is at the installed or the backup path until the new one has passed its
health check, wherever the transaction is cut off; when it throws anything but
`rollbackFailed` the previous App is installed; when it returns the validated candidate
is installed and the previous App is the backup.

* `Safe`, `Thrown`, `Updated`: what is left.
* `execute_spec`: wherever it ends.
-/

namespace AI2Apps.AppUpdate

open Programs

variable {α : Type}

/-! ## What is left -/

/-- The App is at the installed or at the backup path until the health check has passed. -/
def Safe (app : Option (Node α)) (w : World α) : Prop :=
  w.passed = false → w.files .installedApp = app ∨ w.files .backupApp = app

/-- What a transaction leaves that throws; `busy` says that the lock was taken. -/
structure Thrown (app : Option (Node α)) (busy : Prop) (e : Failure) (w : World α) : Prop where
  safe : Safe app w
  restored : (∀ reason, e ≠ .transaction (.rollbackFailed reason)) → w.files .installedApp = app
  refused : e = .transaction .updateInProgress → busy

/-- What a transaction leaves that returns. -/
structure Updated (policy : Policy α) (app candidate : Option (Node α)) (w : World α) : Prop where
  installed : w.files .installedApp = candidate
  validated : candidate.any policy.candidateValidator = true
  backup : w.files .backupApp = app

/-- The lock file is there, and so is an App: a transaction that begins is refused. -/
def FileSystem.Blocked (files : FileSystem α) : Prop :=
  files .lock ≠ none ∧ files.isApp .installedApp = true

/-- The lock is gone, or it could not be removed. -/
def Unlocked (w : World α) : Prop := w.files.Blocked → w.lockLeft = true

/-- The Apps and the health check are the same in both. -/
structure SameApps (w w' : World α) : Prop where
  installed : w'.files .installedApp = w.files .installedApp
  backup : w'.files .backupApp = w.files .backupApp
  passed : w'.passed = w.passed

section Frames

variable {policy : Policy α} {app candidate : Option (Node α)} {busy : Prop} {e : Failure}
  {w w' : World α}

theorem SameApps.put {path : Path} (hi : .installedApp ≠ path) (hb : .backupApp ≠ path)
    (node : Option (Node α)) : SameApps w (w.put path node) where
  installed := by rw [World.files_put, if_neg hi]
  backup := by rw [World.files_put, if_neg hb]
  passed := rfl

theorem SameApps.unlock (node : Option (Node α)) (left : Bool) :
    SameApps w { w.put .lock node with lockLeft := left } where
  installed := by simp
  backup := by simp
  passed := rfl

theorem Safe.same (h : Safe app w) (hsame : SameApps w w') : Safe app w' := by
  intro hpassed
  rw [hsame.installed, hsame.backup]
  exact h (hsame.passed ▸ hpassed)

theorem Thrown.same (h : Thrown app busy e w) (hsame : SameApps w w') : Thrown app busy e w' where
  safe := h.safe.same hsame
  restored hreason := hsame.installed.trans (h.restored hreason)
  refused := h.refused

theorem Updated.same (h : Updated policy app candidate w) (hsame : SameApps w w') :
    Updated policy app candidate w' where
  installed := hsame.installed.trans h.installed
  validated := h.validated
  backup := hsame.backup.trans h.backup

theorem Safe.of_installed (h : w.files .installedApp = app) : Safe app w := fun _ => Or.inl h

theorem Safe.of_backup (h : w.files .backupApp = app) : Safe app w := fun _ => Or.inr h

/-- A transaction that has removed its lock, or noted that it could not. -/
theorem unlocked_of_removed {node : Option (Node α)} {left : Bool}
    (h : node = none ∨ w.files.isApp .installedApp = false ∨ left = true) :
    Unlocked { w.put .lock node with lockLeft := left } := by
  rintro ⟨hlock, happ⟩
  rcases h with hnode | hnone | hleft
  · exact absurd (by simp [hnode]) hlock
  · have hsame : (w.put .lock node).files.isApp .installedApp = w.files.isApp .installedApp := by
      simp [FileSystem.isApp]
    exact absurd (hsame.symm.trans happ) (by simp [hnone])
  · exact hleft

/-- An error that changes nothing of the installed App. -/
theorem Thrown.of_installed (h : w.files .installedApp = app)
    (hrefused : e = .transaction .updateInProgress → busy) : Thrown app busy e w where
  safe := .of_installed h
  restored _ := h
  refused := hrefused

end Frames

/-! ## The transaction -/

section Spec

variable {policy : Policy α} {app candidate : Option (Node α)} {w : World α}

theorem setAside_spec {uuid : String} (hbackup : w.files .backupApp = app) :
    wpc (semantics α) (fun _ w => w.files .backupApp = app) (fun _ w => w.files .backupApp = app)
      (Safe app) (setAside (.failed uuid)) w := by
  unfold setAside
  rw [wpc_bind]
  refine wpc_fileExists (.of_backup hbackup) fun found _ => ?_
  cases found with
  | false => exact hbackup
  | true =>
    refine wpc_moveItem (.of_backup hbackup) (fun node _ _ => ?_) fun _ => hbackup
    simpa using hbackup

theorem restore_spec (hbackup : w.files .backupApp = app) :
    wpc (semantics α) (fun _ w => w.files .installedApp = app) (fun _ => Safe app) (Safe app)
      (restore policy) w := by
  unfold restore
  rw [wpc_bind]
  refine wpc_uuid (.of_backup hbackup) fun uuid => ?_
  rw [wpc_bind]
  refine wpc_mono (setAside_spec hbackup) (fun _ w hbackup => ?_) (fun _ w h => .of_backup h)
    fun _ h => h
  rw [wpc_bind]
  refine wpc_moveItem (.of_backup hbackup) (fun node hnode _ => ?_) fun _ => .of_backup hbackup
  have hback : ((w.put .installedApp (some node)).put .backupApp none).files .installedApp = app := by
    simp [← hbackup, hnode]
  rw [wpc_bind]
  refine wpc_validate (.of_installed hback) (fun _ => ?_) fun _ => .of_installed hback
  rw [wpc_attempt]
  refine wpc_removeItem (by simp) (fun node => ?_) (fun node => ?_) fun _ node => ?_
  · exact (Safe.of_installed hback).same (.put (by simp) (by simp) node)
  · simpa using hback
  · simpa using hback

theorem rollback_spec {busy : Prop} (e : Failure) (hbackup : w.files .backupApp = app) :
    wpc (semantics α) (fun _ _ => False) (Thrown app busy) (Safe app) (rollback policy e) w := by
  unfold rollback
  rw [wpc_bind, wpc_tryCatch]
  refine wpc_mono (restore_spec hbackup) (fun _ w h => ?_) (fun e' w h => ?_) fun _ h => h
  · exact .of_installed h nofun
  · exact { safe := h, restored := fun hreason => absurd rfl (hreason _), refused := nofun }

/-- The new App is checked in its place; until it has passed, the previous one is the
backup. -/
theorem install_spec {uuid : String} (hstaged : w.files (.staged uuid) = candidate)
    (hvalidated : candidate.any policy.candidateValidator = true)
    (hbackup : w.files .backupApp = app) :
    wpc (semantics α) (fun _ => Updated policy app candidate) (fun _ w => w.files .backupApp = app)
      (Safe app) (install policy (.staged uuid)) w := by
  unfold install
  rw [wpc_bind]
  refine wpc_moveItem (.of_backup hbackup) (fun node hnode _ => ?_) fun _ => hbackup
  have hnew : Updated policy app candidate
      ((w.put .installedApp (some node)).put (.staged uuid) none) :=
    { installed := by simp [← hstaged, hnode]
      validated := hvalidated
      backup := by simpa using hbackup }
  rw [wpc_bind]
  refine wpc_validate (.of_backup hnew.backup) (fun _ => ?_) fun _ => hnew.backup
  rw [wpc_bind]
  refine wpc_healthCheck (.of_backup hnew.backup) (fun healthy => ?_) fun _ => hnew.backup
  rw [wpc_bind, wpc_ensure]
  exact ⟨fun _ => ⟨hnew.installed, hvalidated, hnew.backup⟩, fun _ => hnew.backup⟩

/-- The rotation of the backup leaves the installed and the staged App alone. -/
theorem rotateBackup_spec {uuid : String} (hinstalled : w.files .installedApp = app)
    (hstaged : w.files (.staged uuid) = candidate) :
    wpc (semantics α)
      (fun _ w => w.files .installedApp = app ∧ w.files (.staged uuid) = candidate)
      (Thrown app False) (Safe app) (rotateBackup policy) w := by
  have hsafe : Safe app w := .of_installed hinstalled
  have hthrown : ∀ {e}, e ≠ .transaction .updateInProgress → Thrown app False e w :=
    fun he => .of_installed hinstalled he
  have hput : ∀ node, (w.put .backupApp node).files .installedApp = app := fun node => by
    simpa using hinstalled
  unfold rotateBackup
  rw [wpc_bind]
  refine wpc_fileExists hsafe fun found _ => ?_
  split
  · exact ⟨hinstalled, hstaged⟩
  · exact hthrown nofun
  · rw [wpc_bind]
    refine wpc_rejectSymbolicLink hsafe (fun _ => ?_) fun e he _ => hthrown he
    rw [wpc_bind]
    refine wpc_validate hsafe (fun _ => ?_) fun _ => hthrown nofun
    refine wpc_removeItem (by simp) (fun node => ?_) (fun node => ?_) fun _ node => ?_
    · exact .of_installed (hput node)
    · exact ⟨hput node, by simpa using hstaged⟩
    · exact .of_installed (hput node) nofun

theorem replace_spec {uuid : String} (hinstalled : w.files .installedApp = app)
    (hcandidate : w.files .candidateApp = candidate) :
    wpc (semantics α) (fun _ => Updated policy app candidate) (Thrown app False) (Safe app)
      (replace policy uuid) w := by
  have hput : ∀ node, (w.put (.staged uuid) node).files .installedApp = app := fun node => by
    simpa using hinstalled
  unfold replace
  rw [wpc_bind]
  refine wpc_copyItem (fun node => .of_installed (hput node)) (fun node hnode => ?_)
    fun _ node => .of_installed (hput node) nofun
  have hstaged : (w.put (.staged uuid) (some node)).files (.staged uuid) = candidate := by
    simp [← hcandidate, hnode]
  have hsafe := Safe.of_installed (hput (some node))
  rw [wpc_bind]
  refine wpc_validate hsafe (fun hvalidated => ?_) fun _ => .of_installed (hput _) nofun
  rw [hstaged] at hvalidated
  rw [wpc_bind]
  refine wpc_validate hsafe (fun _ => ?_) fun _ => .of_installed (hput _) nofun
  rw [wpc_bind]
  refine wpc_mono (rotateBackup_spec (hput _) hstaged) (fun _ w' h => ?_) (fun _ _ h => h)
    fun _ h => h
  rw [wpc_bind]
  refine wpc_moveItem (.of_installed h.1) (fun app' happ' _ => ?_)
    fun _ => .of_installed h.1 nofun
  have hbackup : ((w'.put .backupApp (some app')).put .installedApp none).files .backupApp = app := by
    simp [← h.1, happ']
  rw [wpc_tryCatch]
  have hstaged : ((w'.put .backupApp (some app')).put .installedApp none).files (.staged uuid) =
      candidate := by simpa using h.2
  refine wpc_mono (install_spec hstaged hvalidated hbackup) (fun _ _ h => h) (fun e _ h => ?_)
    fun _ h => h
  · exact wpc_mono (rollback_spec e h) (fun _ _ h => h.elim) (fun _ _ h => h) fun _ h => h

theorem underLock_spec (hinstalled : w.files .installedApp = app)
    (hcandidate : w.files .candidateApp = candidate) :
    wpc (semantics α) (fun _ => Updated policy app candidate) (Thrown app False) (Safe app)
      (underLock policy) w := by
  unfold underLock
  rw [wpc_bind]
  refine wpc_uuid (.of_installed hinstalled) fun uuid => ?_
  rw [wpc_defer]
  refine wpc_mono (replace_spec hinstalled hcandidate) (fun _ w h => ?_) (fun e w h => ?_)
    fun _ h => h
  · have hput : ∀ node, SameApps w (w.put (.staged uuid) node) := .put (by simp) (by simp)
    refine wpc_removeItem (by simp) (fun node => ?_) (fun node => h.same (hput node))
      fun _ node => h.same (hput node)
    exact (Safe.of_backup h.backup).same (hput node)
  · have hput : ∀ node, SameApps w (w.put (.staged uuid) node) := .put (by simp) (by simp)
    exact wpc_removeItem (by simp) (fun node => h.safe.same (hput node))
      (fun node => h.same (hput node)) fun _ node => h.same (hput node)

/-- What the transaction leaves, wherever it ends. -/
theorem execute_spec (policy : Policy α) (w : World α) :
    wpc (semantics α)
      (fun _ w' => Updated policy (w.files .installedApp) (w.files .candidateApp) w' ∧ Unlocked w')
      (fun e w' => Thrown (w.files .installedApp) w.files.Blocked e w' ∧
        (¬ w.files.Blocked → Unlocked w'))
      (Safe (w.files .installedApp)) (execute policy) w := by
  have hsafe : Safe (w.files .installedApp) w := .of_installed rfl
  have hthrown : ∀ {e}, (e = .transaction .updateInProgress → w.files.Blocked) →
      Thrown (w.files .installedApp) w.files.Blocked e w ∧ (¬ w.files.Blocked → Unlocked w) :=
    fun he => ⟨.of_installed rfl he, fun hopen hblocked => absurd hblocked hopen⟩
  have hrequire : ∀ {Q : Unit → World α → Prop} (path name), Q () w →
      wpc (semantics α) Q (fun e w' => Thrown (w.files .installedApp) w.files.Blocked e w' ∧
        (¬ w.files.Blocked → Unlocked w')) (Safe (w.files .installedApp))
        (requireApp path name) w := by
    intro Q path name hQ
    unfold requireApp
    rw [wpc_bind]
    refine wpc_fileExists hsafe fun found _ => ?_
    rw [wpc_ensure]
    exact ⟨fun _ => hQ, fun _ => hthrown nofun⟩
  unfold execute
  rw [wpc_bind]
  refine hrequire _ _ ?_
  rw [wpc_bind]
  refine hrequire _ _ ?_
  rw [wpc_bind]
  refine wpc_rejectSymbolicLink hsafe (fun happ => ?_) fun e he _ => hthrown fun h => absurd h he
  rw [wpc_bind]
  refine wpc_rejectSymbolicLink hsafe (fun _ => ?_) fun e he _ => hthrown fun h => absurd h he
  rw [wpc_bind]
  refine wpc_createLock hsafe (fun hfree => ?_) fun e he => hthrown fun h => ⟨he h, happ⟩
  rw [wpc_defer]
  have hinstalled : (w.put .lock (some .file)).files .installedApp = w.files .installedApp := by
    simp
  have hcandidate : (w.put .lock (some .file)).files .candidateApp = w.files .candidateApp := by
    simp
  refine wpc_mono (underLock_spec hinstalled hcandidate) (fun _ w' h => ?_)
    (fun e w' h => ?_) fun _ h => h
  · refine wpc_removeLock (fun node => ?_) fun node left hleft => ?_
    · exact (Safe.of_backup h.backup).same (.put (by simp) (by simp) node)
    · exact ⟨h.same (.unlock node left), unlocked_of_removed hleft⟩
  · refine wpc_removeLock (fun node => ?_) fun node left hleft => ?_
    · exact h.safe.same (.put (by simp) (by simp) node)
    · have hrest := h.same (.unlock node left)
      exact ⟨⟨hrest.safe, hrest.restored, fun he => (hrest.refused he).elim⟩,
        fun _ => unlocked_of_removed hleft⟩

end Spec

end AI2Apps.AppUpdate
