import AI2Apps.Agents.Replays

/-!
# Replays and retries

Over every history, a later call with a key that is taken returns the run exactly
when nothing of what it was admitted with has gone.  A retry is created from a
count made in an earlier transaction, so two retries that count together pass the
limit together.

* `Advanced`: what one transaction of a call may do.
* `Sound`: a key names one run, and a call returned the run that has its key.
* `Sound.returns_iff`: what a later call with the same key returns.
* `Undisturbed`: nothing came between a count and the run it allowed.
* `creations_bounded`: both laws, under their conditions.
-/

namespace AI2Apps.Agents

open Clock Faults
open JsonText (setMember lookup_setMember_of_ne)

/-! ## One transaction -/

/-- The call was admitted, at some time and under some definition, with this run. -/
def Accepted (env : Env) (db : Db) (args : CreateArgs) (run : Run) : Prop :=
  ∃ now definition, Replays env db now definition args run

/-- The creation has put one more run there. -/
structure Inserted (env : Env) (db : Db) (args : CreateArgs) (run : Run) (s : Db) : Prop where
  rows : s.runs.rows = db.runs.rows ++ [run]
  inserted : db.runs.insert? run = some s.runs
  keyed : db.keyed? args.sessionId args.idempotencyKey = none
  sessionId : run.sessionId = args.sessionId
  idempotencyKey : run.idempotencyKey = args.idempotencyKey
  accepted : Accepted env db args run
  input : ∃ definition parameters delegation,
    run.input = recordedInput env definition args parameters delegation

/-- What the next transaction of a call may do. -/
inductive Advanced (env : Host) (db : Db) : Call → Call → Db → Prop
  | stay (call : Call) : Advanced env db call call db
  | read (args : CreateArgs) (definition : Definition) (attempts : Option ℕ) :
      Advanced env db (.create args attempts) (.checked args definition attempts) db
  | found {args : CreateArgs} {definition : Definition} {attempts : Option ℕ} {run : Run}
      (hkey : db.keyed? args.sessionId args.idempotencyKey = some run)
      (haccepted : Accepted env.toEnv db args run) :
      Advanced env db (.checked args definition attempts) (.returned args run false) db
  | inserted {args : CreateArgs} {definition : Definition} {attempts : Option ℕ} {run : Run} {s : Db}
      (hinserted : Inserted env.toEnv db args run s) :
      Advanced env db (.checked args definition attempts) (.returned args run true) s
  | retrying (runId : Str) (original : Run) (key : Option Str) :
      Advanced env db (.retry runId key) (.retrying original key) db
  | reused (original run : Run) (key : Option Str) :
      Advanced env db (.retrying original key) (.reused run) db
  | counted {original : Run} {root : SqlValue} (key : Option Str)
      (hroot : env.bound (rootAttemptRunId original) = some root) :
      Advanced env db (.retrying original key)
        (.counted original key (env.retries db original.sessionId root).length) db
  | retried (original : Run) (definition : Definition) (key : Option Str) {previous : ℕ}
      (hlimit : previous < maxRunRetries) : Advanced env db (.counted original key previous)
        (.create (retryArgs original definition key previous) (some previous)) db

section Transactions

variable {env : Env} {db : Db} {now : DateTime} {definition : Definition} {args : CreateArgs}
  {runId : Str}

/-- The end of a creation that finds no run with its key. -/
theorem insert_spec (lineage : Lineage) (p d : Json.Object)
    (hkey : db.keyed? args.sessionId args.idempotencyKey = none)
    (hadmitted : Admitted env db now definition args p d) :
    wp (reuseOrInsert now runId definition args lineage (recordedInput env definition args p d) none)
      (fun out s => out.2 = true ∧ Inserted env db args out.1 s) (fun _ _ => True) db := by
  unfold reuseOrInsert
  rw [wp_bind]
  refine wp_mono (insertRun_spec _) (fun _ s hinsert => ?_) fun _ _ _ => trivial
  rw [wp_bind]
  refine wp_mono (preserves_recordDelegation (onRuns_runs s.runs) _ _ _ _ _ s rfl)
    (fun _ t ht => ⟨rfl, ?_⟩) fun _ _ _ => trivial
  rw [← ht] at hinsert
  exact ⟨(Table.rows_insert hinsert).1, hinsert, hkey, rfl, rfl,
    ⟨now, definition, rfl, p, d, hadmitted, .inr (Json.sameText_refl _)⟩, definition, p, d, rfl⟩

/-- **What `create_run` does** with the definition it has read. -/
theorem createRunWith_spec :
    wp (createRunWith env definition now runId args) (fun out s =>
      (out.2 = false ∧ s = db ∧ db.keyed? args.sessionId args.idempotencyKey = some out.1 ∧
        Accepted env db args out.1) ∨
      (out.2 = true ∧ Inserted env db args out.1 s)) (fun _ _ => True) db := by
  cases hkey : db.keyed? args.sessionId args.idempotencyKey with
  | some existing =>
    refine wp_mono (createRunWith_keyed hkey) (fun out s hs => ?_) fun _ _ _ => trivial
    obtain ⟨rfl, rfl, hreplays⟩ := hs
    exact .inl ⟨rfl, rfl, rfl, now, definition, hreplays⟩
  | none =>
    refine createRunWith_wp (fun _ _ => trivial) fun p lineage hadmitted => ?_
    rw [hkey]
    exact wp_mono (insert_spec lineage p _ hkey hadmitted) (fun _ _ hs => .inr hs) fun _ _ _ => trivial

end Transactions

theorem advance_spec (env : Host) (db : Db) (now : DateTime) (runId : Str) (call : Call) :
    wp (call.advance env now runId) (fun call' s => Advanced env db call call' s) (fun _ _ => True)
      db := by
  cases call with
  | create args attempts =>
    unfold Call.advance getDefinition
    rw [wp_bind, wp_bind, wp_get, wp_orThrow]
    exact ⟨fun definition _ => .read args definition attempts, fun _ => trivial⟩
  | checked args definition attempts =>
    unfold Call.advance
    rw [wp_bind]
    refine wp_mono createRunWith_spec (fun out s hs => ?_) fun _ _ _ => trivial
    obtain ⟨run, new⟩ := out
    rcases hs with ⟨rfl, rfl, hkey, haccepted⟩ | ⟨rfl, hinserted⟩
    · exact .found hkey haccepted
    · exact .inserted hinserted
  | retry runId key =>
    unfold Call.advance
    rw [wp_bind]
    cases hrun : db.run? runId with
    | none => rw [wp_selectRun_of_none hrun]; trivial
    | some original =>
      rw [wp_selectRun_of_some hrun]
      split
      · trivial
      · exact .retrying runId original key
  | retrying original key =>
    unfold Call.advance countRetries
    rw [wp_bind, wp_get]
    split
    · rename_i existing _
      rw [wp_bind, wp_orThrow]
      refine ⟨fun retry _ => ?_, fun _ => trivial⟩
      split
      · exact .reused original existing key
      · trivial
    · rw [wp_bind, wp_orThrow]
      exact ⟨fun root hroot => .counted key hroot, fun _ => trivial⟩
  | counted original key previous =>
    unfold Call.advance
    dsimp only
    split_ifs with hlimit
    · trivial
    · unfold getDefinition
      rw [wp_bind, wp_bind, wp_get, wp_orThrow]
      exact ⟨fun definition _ => .retried original definition key (by omega), fun _ => trivial⟩
  | idle | returned | reused | refused => exact .stay _

/-! ## The system -/

section System

variable {env : Host} {s : System}

theorem next_event (event : Event) : s.next env (.event event) =
    if event.isCreation then s else { s with db := s.db.next env.toEnv event } := rfl

/-- What the next transaction of a call makes of the system. -/
theorem next_advance (i : ℕ) (now : DateTime) (runId : Str) :
    (∃ call t, Advanced env s.db (s.calls i) call t ∧
      s.next env (.advance i now runId) = ⟨t, Function.update s.calls i call⟩) ∨
    ∃ e, s.next env (.advance i now runId) = ⟨s.db, Function.update s.calls i (.refused e)⟩ := by
  have hwp : wp (transaction ((s.calls i).advance env now runId))
      (fun call t => Advanced env s.db (s.calls i) call t) (fun _ t => t = s.db) s.db := by
    rw [wp_transaction]
    exact wp_mono (advance_spec env s.db now runId (s.calls i)) (fun _ _ h => h) fun _ _ _ => rfl
  have hnext : s.next env (.advance i now runId) =
      s.landed i ((transaction ((s.calls i).advance env now runId)).run s.db) := rfl
  rw [hnext]
  unfold wp at hwp
  cases hrun : (transaction ((s.calls i).advance env now runId)).run s.db with
  | ok call t =>
    rw [hrun] at hwp
    exact .inl ⟨call, t, hwp, rfl⟩
  | error e t =>
    rw [hrun] at hwp
    obtain rfl : t = s.db := hwp
    exact .inr ⟨e, rfl⟩

/-- The runs of `db` with their identity, and no other. -/
structure SameRuns (db t : Db) : Prop where
  retains : Retains db t
  noneNew : NoneNew db t

theorem SameRuns.of_runs_eq {db t : Db} (h : t.runs = db.runs) : SameRuns db t where
  retains := .of_runs_eq h
  noneNew r' hr' := ⟨r', by rw [← h]; exact hr', .refl r'⟩

/-- One transaction inserts a run or none. -/
theorem Advanced.runs {db t : Db} {call call' : Call} (h : Advanced env db call call' t) :
    SameRuns db t ∨ ∃ args definition attempts run, call = .checked args definition attempts ∧
      call' = .returned args run true ∧ Inserted env.toEnv db args run t := by
  cases h with
  | inserted hinserted => exact .inr ⟨_, _, _, _, rfl, rfl, hinserted⟩
  | _ => exact .inl (.of_runs_eq rfl)

/-- **What happens to the runs**: they keep their identity, and a creation may add one. -/
theorem runs_next (label : Label) :
    SameRuns s.db (s.next env label).db ∨ ∃ i now runId args definition attempts run,
      label = .advance i now runId ∧ s.calls i = .checked args definition attempts ∧
      Inserted env.toEnv s.db args run (s.next env label).db := by
  cases label with
  | event event =>
    rw [next_event]
    split_ifs with hcreation
    · exact .inl (.of_runs_eq rfl)
    · have hsame := @event_retains env.toEnv s.db _ (Bool.not_eq_true _ ▸ hcreation)
      exact .inl ⟨hsame.1, hsame.2⟩
  | advance i now runId =>
    rcases @next_advance env s i now runId with ⟨call, t, hadvanced, hnext⟩ | ⟨e, hnext⟩
    · rw [hnext]
      rcases hadvanced.runs with hsame | ⟨args, definition, attempts, run, hcall, -, hinserted⟩
      · exact .inl hsame
      · exact .inr ⟨i, now, runId, args, definition, attempts, run, rfl, hcall, hinserted⟩
    · rw [hnext]
      exact .inl (.of_runs_eq rfl)
  | catalog | createRun | retryRun => exact .inl (.of_runs_eq rfl)

theorem Inserted.retains {db t : Db} {args : CreateArgs} {run : Run}
    (h : Inserted env.toEnv db args run t) : Retains db t :=
  fun _ r hr => ⟨r, Table.get?_insert_of_some h.inserted hr, .refl r⟩

theorem retains_next (label : Label) : Retains s.db (s.next env label).db := by
  rcases @runs_next env s label with hsame | ⟨i, now, runId, args, d, n, run, -, -, h⟩
  · exact hsame.retains
  · exact h.retains

theorem retains_run (labels : List Label) : Retains s.db (s.run env labels).db := by
  induction labels generalizing s with
  | nil => exact .of_runs_eq rfl
  | cons label labels ih => exact (retains_next label).trans ih

/-! ### Sound systems -/

/-- What a call that returned a run leaves: the run has the call's key, is there, and was what the
call was admitted with. -/
structure Kept (env : Env) (db : Db) (args : CreateArgs) (run : Run) : Prop where
  sessionId : run.sessionId = args.sessionId
  idempotencyKey : run.idempotencyKey = args.idempotencyKey
  there : ∃ r', db.run? run.id = some r' ∧ SameIdentity run r'
  accepted : ∃ db₀, Retains db₀ db ∧ Accepted env db₀ args run

theorem Kept.retained {env : Env} {db t : Db} {args : CreateArgs} {run : Run} (h : Kept env db args run)
    (hretains : Retains db t) : Kept env t args run := by
  obtain ⟨r, hr, hid⟩ := h.there
  obtain ⟨r', hr', hid'⟩ := hretains _ r hr
  obtain ⟨db₀, hbefore, haccepted⟩ := h.accepted
  exact ⟨h.sessionId, h.idempotencyKey, ⟨r', hr', hid.trans hid'⟩, db₀, hbefore.trans hretains, haccepted⟩

/-- A key names one run of its Session, every run stores the input it was created with, and a call
returned the run that has its key. -/
structure Sound (env : Env) (s : System) : Prop where
  keys : KeysUnique s.db
  recorded : ∀ r ∈ s.db.runs.rows, Recorded env r.input
  returned : ∀ i args run new, s.calls i = .returned args run new → args.idempotencyKey ≠ none →
    Kept env s.db args run

theorem Inserted.keysUnique {db t : Db} {args : CreateArgs} {run : Run}
    (h : Inserted env.toEnv db args run t) (hkeys : KeysUnique db) : KeysUnique t := by
  have hother : ∀ r ∈ db.runs.rows, r.sessionId = run.sessionId → run.idempotencyKey ≠ none →
      r.idempotencyKey ≠ run.idempotencyKey := by
    intro r hr hsession hsome hkey
    obtain ⟨key, hkey'⟩ := Option.ne_none_iff_exists'.mp hsome
    have hfound : db.keyed? args.sessionId (some key) = some r :=
      (keyed_eq_some_iff hkeys).mpr ⟨hr, hsession.trans h.sessionId, hkey.trans hkey'⟩
    rw [← hkey', h.idempotencyKey, h.keyed] at hfound
    exact nomatch hfound
  intro r hr r' hr' hsession hsome hkey
  rw [h.rows, List.mem_append, List.mem_singleton] at hr hr'
  rcases hr with hr | rfl
  · rcases hr' with hr' | rfl
    · exact hkeys r hr r' hr' hsession hsome hkey
    · exact absurd hkey (hother r hr hsession (hkey ▸ hsome))
  · rcases hr' with hr' | rfl
    · exact absurd hkey.symm (hother r' hr' hsession.symm hsome)
    · rfl

/-- **What becomes of a call**: it stays, begins, is refused, or makes its next transaction. -/
theorem calls_next (label : Label) (j : ℕ) :
    (s.next env label).calls j = s.calls j ∨
    (∃ args, (s.next env label).calls j = .create args none) ∨
    (∃ runId key, (s.next env label).calls j = .retry runId key) ∨
    (∃ e, (s.next env label).calls j = .refused e) ∨
    Advanced env s.db (s.calls j) ((s.next env label).calls j) (s.next env label).db := by
  have hupdate : ∀ (i : ℕ) (call : Call), Function.update s.calls i call j = s.calls j ∨
      i = j ∧ Function.update s.calls i call j = call := by
    intro i call
    rcases eq_or_ne j i with rfl | hne
    · exact .inr ⟨rfl, Function.update_self ..⟩
    · exact .inl (Function.update_of_ne hne ..)
  cases label with
  | event event =>
    rw [next_event]
    split_ifs
    · exact .inl rfl
    · exact .inl rfl
  | catalog => exact .inl rfl
  | createRun i args =>
    rcases hupdate i (.create args none) with h | ⟨-, h⟩
    · exact .inl h
    · exact .inr (.inl ⟨args, h⟩)
  | retryRun i runId key =>
    rcases hupdate i (.retry runId key) with h | ⟨-, h⟩
    · exact .inl h
    · exact .inr (.inr (.inl ⟨runId, key, h⟩))
  | advance i now runId =>
    rcases @next_advance env s i now runId with ⟨call, t, hadvanced, hnext⟩ | ⟨e, hnext⟩
    · rw [hnext]
      rcases hupdate i call with h | ⟨rfl, h⟩
      · exact .inl h
      · refine .inr (.inr (.inr (.inr ?_)))
        show Advanced env s.db (s.calls i) (Function.update s.calls i call i) t
        rw [h]
        exact hadvanced
    · rw [hnext]
      rcases hupdate i (.refused e) with h | ⟨-, h⟩
      · exact .inl h
      · exact .inr (.inr (.inr (.inl ⟨e, h⟩)))

theorem Sound.recorded_next (h : Sound env.toEnv s) (label : Label) :
    ∀ r ∈ (s.next env label).db.runs.rows, Recorded env.toEnv r.input := by
  intro r hr
  rcases @runs_next env s label with hsame | ⟨_, _, _, args, _, _, run, -, -, hinserted⟩
  · obtain ⟨r₀, hr₀, hid⟩ := hsame.noneNew r hr
    rw [hid.input]
    exact h.recorded r₀ hr₀
  · rw [hinserted.rows, List.mem_append, List.mem_singleton] at hr
    rcases hr with hr | rfl
    · exact h.recorded r hr
    · obtain ⟨definition, parameters, delegation, hinput⟩ := hinserted.input
      exact ⟨definition, args, parameters, delegation, hinput⟩

theorem Sound.next (h : Sound env.toEnv s) (label : Label) : Sound env.toEnv (s.next env label) := by
  have hretains := @retains_next env s label
  refine ⟨?_, h.recorded_next label, fun j args run new hj hkey => ?_⟩
  · rcases @runs_next env s label with hsame | ⟨_, _, _, _, _, _, _, -, -, hinserted⟩
    · exact h.keys.of_noneNew hsame.noneNew
    · exact hinserted.keysUnique h.keys
  have hbefore : s.calls j = .returned args run new → Kept env.toEnv (s.next env label).db args run :=
    fun hj => (h.returned j args run new hj hkey).retained hretains
  rcases @calls_next env s label j with hsame | ⟨_, hnew⟩ | ⟨_, _, hnew⟩ | ⟨_, hnew⟩ |
    hadvanced
  · exact hbefore (hsame.symm.trans hj)
  · exact nomatch hnew.symm.trans hj
  · exact nomatch hnew.symm.trans hj
  · exact nomatch hnew.symm.trans hj
  rw [hj] at hadvanced
  generalize hcall : s.calls j = call at hadvanced
  generalize (s.next env label).db = t at hadvanced hbefore hretains ⊢
  obtain ⟨key, hsome⟩ := Option.ne_none_iff_exists'.mp hkey
  cases hadvanced with
  | stay => exact hbefore hcall
  | found hfound haccepted =>
    rw [hsome] at hfound
    obtain ⟨hrow, hsession, hsame⟩ := (keyed_eq_some_iff h.keys).mp hfound
    exact ⟨hsession, hsame.trans hsome.symm, ⟨run, Table.get?_of_mem hrow, .refl run⟩, _, hretains,
      haccepted⟩
  | inserted hinserted =>
    refine ⟨hinserted.sessionId, hinserted.idempotencyKey, ⟨run, ?_, .refl run⟩, _, hretains,
      hinserted.accepted⟩
    rw [Db.run?, Table.get?_insert hinserted.inserted, if_pos rfl]

theorem Sound.run (h : Sound env.toEnv s) (labels : List Label) : Sound env.toEnv (s.run env labels) := by
  induction labels generalizing s with
  | nil => exact h
  | cons label labels ih => exact ih (h.next label)

theorem sound_start (env : Env) (db : Db) : Sound env (System.start db) where
  keys _ hr := absurd hr List.not_mem_nil
  recorded _ hr := absurd hr List.not_mem_nil
  returned _ _ _ _ h := nomatch h

/-! ### Replays -/

/-- The call returns the run as it is, and changes nothing. -/
def Returns (env : Host) (s : System) (j : ℕ) (now : DateTime) (runId : Str) (args : CreateArgs)
    (run : Run) : Prop :=
  ∃ r', s.db.run? run.id = some r' ∧ s.next env (.advance j now runId) =
    ⟨s.db, Function.update s.calls j (.returned args r' false)⟩

/-- **What a later call with the key returns.** -/
theorem Sound.returns_iff (h : Sound env.toEnv s) {i j : ℕ} {args : CreateArgs} {run : Run} {new : Bool}
    (hkey : args.idempotencyKey ≠ none) {s' : System} (hs' : Sound env.toEnv s')
    (hretains : Retains s.db s'.db) (hreturned : s.calls i = .returned args run new)
    {definition : Definition} {attempts : Option ℕ}
    (hcall : s'.calls j = .checked args definition attempts) (now : DateTime) (runId : Str) :
    Returns env s' j now runId args run ↔ Persists env.toEnv s'.db now definition args run := by
  obtain ⟨hsession, hsame, ⟨r', hr', hidentity⟩, db₀, hbefore, now₀, definition₀, hreplays₀⟩ :=
    (h.returned i args run new hreturned hkey).retained hretains
  have hrecorded : Recorded env.toEnv run.input := by
    rw [← hidentity.input]
    exact hs'.recorded r' (Table.mem_of_get? hr')
  obtain ⟨key, hsome⟩ := Option.ne_none_iff_exists'.mp hkey
  have hfound : s'.db.keyed? args.sessionId args.idempotencyKey = some r' := by
    rw [hsome]
    refine (keyed_eq_some_iff hs'.keys).mpr ⟨Table.mem_of_get? hr', ?_, ?_⟩
    · rw [hidentity.sessionId, hsession]
    · rw [hidentity.idempotencyKey, hsame, hsome]
  have hwp : wp (transaction ((s'.calls j).advance env now runId))
      (fun call t => call = .returned args r' false ∧ t = s'.db ∧
        Replays env.toEnv s'.db now definition args r')
      (fun _ t => t = s'.db ∧ ¬ Replays env.toEnv s'.db now definition args r') s'.db := by
    rw [wp_transaction, hcall]
    unfold Call.advance
    rw [wp_bind]
    refine wp_mono (createRunWith_keyed hfound) (fun out t ht => ?_) fun _ _ hnot => ⟨rfl, hnot⟩
    obtain ⟨rfl, rfl, hreplays⟩ := ht
    exact ⟨rfl, rfl, hreplays⟩
  have hnext : s'.next env (.advance j now runId) =
      s'.landed j ((transaction ((s'.calls j).advance env now runId)).run s'.db) := rfl
  unfold Returns
  rw [hnext, ← hreplays₀.persists_iff hbefore hrecorded, ← Replays.congr hidentity]
  unfold wp at hwp
  cases hrun : (transaction ((s'.calls j).advance env now runId)).run s'.db with
  | ok call t =>
    rw [hrun] at hwp
    obtain ⟨rfl, rfl, hreplays⟩ := hwp
    exact iff_of_true ⟨r', hr', rfl⟩ hreplays
  | error e t =>
    rw [hrun] at hwp
    refine iff_of_false ?_ hwp.2
    rintro ⟨r'', -, hsystem⟩
    have hcalls : Function.update s'.calls j (.refused e) j =
        Function.update s'.calls j (.returned args r'' false) j :=
      congrFun (congrArg System.calls hsystem) j
    rw [Function.update_self, Function.update_self] at hcalls
    exact nomatch hcalls

/-! ### The number of retries -/

/-- What is created retries nothing, or was counted for and the count still stands. -/
def CreateArgs.Counted (args : CreateArgs) (env : Host) (db : Db) : Option ℕ → Prop
  | none => env.rootAttempt args.input = .null
  | some previous => (env.retries db args.sessionId (env.rootAttempt args.input)).length = previous

instance CreateArgs.decidableCounted (args : CreateArgs) (env : Host) (db : Db) :
    ∀ attempts, Decidable (args.Counted env db attempts)
  | none => inferInstanceAs (Decidable (env.rootAttempt args.input = .null))
  | some previous => inferInstanceAs (Decidable
      ((env.retries db args.sessionId (env.rootAttempt args.input)).length = previous))

/-- A call that is about to create a run was counted for. -/
def Call.Counted (env : Host) (db : Db) : Call → Prop
  | .checked args _ attempts =>
    db.keyed? args.sessionId args.idempotencyKey = none → args.Counted env db attempts
  | _ => True

instance Call.decidableCounted (env : Host) (db : Db) : ∀ call : Call, Decidable (call.Counted env db)
  | .checked args _ attempts => inferInstanceAs
      (Decidable (db.keyed? args.sessionId args.idempotencyKey = none → args.Counted env db attempts))
  | .idle | .create .. | .retry .. | .retrying .. | .counted .. | .returned .. | .reused _ | .refused _ =>
    isTrue trivial

/-- No retry of the same root comes between a count and the run it allowed. -/
def Undisturbed (env : Host) (s : System) : Label → Prop
  | .advance i _ _ => (s.calls i).Counted env s.db
  | _ => True

instance decidableUndisturbed (env : Host) (s : System) : ∀ label, Decidable (Undisturbed env s label)
  | .advance i _ _ => inferInstanceAs (Decidable ((s.calls i).Counted env s.db))
  | .event _ | .catalog .. | .createRun .. | .retryRun .. => isTrue trivial

/-- Every step of the history meets a condition on the system it finds. -/
def System.Every (env : Host) (C : System → Label → Prop) : System → List Label → Prop
  | _, [] => True
  | s, label :: labels => C s label ∧ System.Every env C (s.next env label) labels

instance System.decidableEvery {env : Host} {C : System → Label → Prop} [∀ s label, Decidable (C s label)] :
    ∀ s labels, Decidable (System.Every env C s labels)
  | _, [] => isTrue trivial
  | s, label :: labels =>
    have : Decidable (System.Every env C (s.next env label) labels) := System.decidableEvery _ _
    inferInstanceAs (Decidable (C s label ∧ System.Every env C (s.next env label) labels))

/-- The retries are within the limit, and so is what a retry has counted. -/
structure Bounded (env : Host) (s : System) : Prop where
  retries : ∀ sessionId root, (env.retries s.db sessionId root).length ≤ maxRunRetries
  counted : ∀ i args n, s.calls i = .create args (some n) ∨
    (∃ definition, s.calls i = .checked args definition (some n)) → n < maxRunRetries

theorem rootAttempt_recordedInput (env : Host) (definition : Definition) (args : CreateArgs)
    (parameters delegation : Json.Object) :
    env.rootAttempt (recordedInput env.toEnv definition args parameters delegation) =
      env.rootAttempt args.input := by
  have hretry : Json.lookup (str "retry") (recordedInput env.toEnv definition args parameters delegation) =
      Json.lookup (str "retry") args.input := by
    unfold recordedInput normalizeInput
    dsimp only
    have hparameters : str "parameters" ≠ str "retry" := by decide
    have hinvocation : str "invocation" ≠ str "retry" := by decide
    have hbudget : str "run_budget" ≠ str "retry" := by decide
    have hdelegation : str "delegation" ≠ str "retry" := by decide
    split_ifs <;> simp only [lookup_setMember_of_ne hparameters, lookup_setMember_of_ne hinvocation,
      lookup_setMember_of_ne hbudget, lookup_setMember_of_ne hdelegation]
  unfold Host.rootAttempt retryMetadata
  rw [hretry]

/-- A table without new runs has no more retries. -/
theorem retries_le_of_noneNew {db t : Db} (h : NoneNew db t) (sessionId : Str) (root : SqlValue) :
    (env.retries t sessionId root).length ≤ (env.retries db sessionId root).length := by
  have hnodup : ((env.retries t sessionId root).map Run.id).Nodup :=
    t.runs.nodup.sublist (List.filter_sublist.map _)
  have hsub : (env.retries t sessionId root).map Run.id ⊆ (env.retries db sessionId root).map Run.id := by
    intro id hid
    obtain ⟨r', hr', rfl⟩ := List.mem_map.mp hid
    obtain ⟨hrow, hmatch⟩ := List.mem_filter.mp hr'
    obtain ⟨r, hr, hsame⟩ := h r' hrow
    rw [hsame.sessionId, hsame.input] at hmatch
    exact List.mem_map.mpr ⟨r, List.mem_filter.mpr ⟨hr, hmatch⟩, hsame.id.symm⟩
  simpa using (List.subperm_of_subset hnodup hsub).length_le

/-- **A run that was counted for keeps the retries within the limit.** -/
theorem retries_insert {args : CreateArgs} {definition : Definition} {attempts : Option ℕ} {run : Run}
    {t : Db} {i : ℕ} {now : DateTime} {runId : Str} (h : Bounded env s)
    (hcall : s.calls i = .checked args definition attempts)
    (hundisturbed : Undisturbed env s (.advance i now runId))
    (hinserted : Inserted env.toEnv s.db args run t) (sessionId : Str) (root : SqlValue) :
    (env.retries t sessionId root).length ≤ maxRunRetries := by
  have hroot : env.rootAttempt run.input = env.rootAttempt args.input := by
    obtain ⟨definition', parameters, delegation, hinput⟩ := hinserted.input
    rw [hinput, rootAttempt_recordedInput]
  have hrows : env.retries t sessionId root = env.retries s.db sessionId root ++
      [run].filter fun r => r.sessionId = sessionId && root ≠ .null && env.rootAttempt r.input = root := by
    unfold Host.retries
    rw [hinserted.rows, List.filter_append]
  have hlimit := h.retries sessionId root
  rw [hrows, List.length_append]
  by_cases hmatch : (run.sessionId = sessionId && root ≠ .null && env.rootAttempt run.input = root) = true
  · -- the new run retries this root: it was counted, and the count still stands
    rw [List.filter_singleton, hmatch, cond_true]
    simp only [Bool.and_eq_true, decide_eq_true_eq] at hmatch
    obtain ⟨⟨hsession, hsome⟩, hsame⟩ := hmatch
    rw [hroot] at hsame
    have hcounted : (s.calls i).Counted env s.db := hundisturbed
    rw [hcall] at hcounted
    have hcondition : args.Counted env s.db attempts := hcounted hinserted.keyed
    cases attempts with
    | none => exact absurd (hsame.symm.trans hcondition) hsome
    | some previous =>
      have hcount : (env.retries s.db sessionId root).length = previous := by
        rw [← hsession, ← hsame, hinserted.sessionId]
        exact hcondition
      have hprevious := h.counted i args previous (.inr ⟨definition, hcall⟩)
      rw [hcount]
      exact hprevious
  · rw [List.filter_singleton, Bool.eq_false_of_not_eq_true hmatch, cond_false]
    exact hlimit

theorem Bounded.next (h : Bounded env s) {label : Label} (hundisturbed : Undisturbed env s label) :
    Bounded env (s.next env label) := by
  constructor
  · intro sessionId root
    rcases @runs_next env s label with hsame | ⟨i, now, runId, args, definition, attempts,
      run, rfl, hcall, hinserted⟩
    · exact (retries_le_of_noneNew hsame.noneNew sessionId root).trans (h.retries sessionId root)
    · exact retries_insert h hcall hundisturbed hinserted sessionId root
  · intro j args n hcall
    have hbefore := h.counted j args n
    rcases @calls_next env s label j with hsame | ⟨_, hnew⟩ | ⟨_, _, hnew⟩ | ⟨_, hnew⟩ |
      hadvanced
    · rw [hsame] at hcall
      exact hbefore hcall
    · rw [hnew] at hcall
      rcases hcall with hcall | ⟨_, hcall⟩ <;> exact nomatch hcall
    · rw [hnew] at hcall
      rcases hcall with hcall | ⟨_, hcall⟩ <;> exact nomatch hcall
    · rw [hnew] at hcall
      rcases hcall with hcall | ⟨_, hcall⟩ <;> exact nomatch hcall
    generalize s.calls j = call at hadvanced hbefore
    generalize (s.next env label).db = t at hadvanced
    rcases hcall with hcall | ⟨definition, hcall⟩
    · rw [hcall] at hadvanced
      cases hadvanced with
      | stay => exact hbefore (.inl rfl)
      | retried _ _ _ hlimit => exact hlimit
    · rw [hcall] at hadvanced
      cases hadvanced with
      | stay => exact hbefore (.inr ⟨definition, rfl⟩)
      | read => exact hbefore (.inl rfl)

theorem bounded_start (db : Db) : Bounded env (System.start db) where
  retries _ _ := Nat.zero_le _
  counted _ _ _ h := by rcases h with h | ⟨_, h⟩ <;> exact nomatch h

theorem Bounded.run (h : Bounded env s) {labels : List Label}
    (hundisturbed : System.Every env (Undisturbed env) s labels) : Bounded env (s.run env labels) := by
  induction labels generalizing s with
  | nil => exact h
  | cons label labels ih => exact ih (h.next hundisturbed.1) hundisturbed.2

end System

/-- **Replays and retries.**  After a call has returned a run, a later one with its key and its
arguments returns the run and changes nothing exactly when all it depends on persists; and in every
history in which nothing comes between a count and the run it allowed, no root attempt has more
retries than the limit. -/
theorem creations_bounded (env : Host) (db : Db) :
    (∀ before after i j args run new definition attempts now runId,
      ((System.start db).run env before).calls i = .returned args run new →
      args.idempotencyKey ≠ none →
      ((System.start db).run env (before ++ after)).calls j = .checked args definition attempts →
      (Returns env ((System.start db).run env (before ++ after)) j now runId args run ↔
        Persists env.toEnv ((System.start db).run env (before ++ after)).db now definition args run)) ∧
    ∀ labels, System.Every env (Undisturbed env) (System.start db) labels → ∀ sessionId root,
      (env.retries ((System.start db).run env labels).db sessionId root).length ≤ maxRunRetries := by
  constructor
  · intro before after i j args run new definition attempts now runId hreturned hkey hcall
    have hsound := @Sound.run env _ (sound_start env.toEnv db) before
    have hsplit : (System.start db).run env (before ++ after) =
        ((System.start db).run env before).run env after := List.foldl_append
    rw [hsplit] at hcall ⊢
    exact hsound.returns_iff hkey (hsound.run after) (retains_run after) hreturned hcall now runId
  · intro labels hundisturbed
    exact ((bounded_start db).run hundisturbed).retries

namespace RetrySample

open DenialSample

def host : Host := { env with jsonText := fun _ => [] }

def key : Str := str "key-1"

def args : CreateArgs where
  sessionId := str "ses_1"
  agentKey := str "writer"
  input := []
  idempotencyKey := some key
  priority := 0
  parentRunId := none
  delegation := []
  budget := []

/-- A run is created. -/
def created : List Label := [
  .createRun 0 args, .advance 0 (second 0) runId, .advance 0 (second 0) runId]

/-- The package of the Agent is updated. -/
def updated : Label :=
  .catalog (start.definitions.map fun d => { d with packageVersion := str "2.0.0" }) start.sessions

/-- The same call again, up to its last transaction. -/
def again : List Label := [.createRun 1 args, .advance 1 (second 1) (str "run_2")]

/-- The run is cancelled, and retried once. -/
def retried : List Label := created ++ [
  .event (.call (.requestCancel (second 1) runId)), .retryRun 1 runId none,
  .advance 1 (second 2) [], .advance 1 (second 2) [], .advance 1 (second 2) [],
  .advance 1 (second 2) [], .advance 1 (second 2) (str "run_2")]

/-- Once more, and then twice at a time: both count before either creates. -/
def raced : List Label := retried ++ [
  .retryRun 1 runId none,
  .advance 1 (second 3) [], .advance 1 (second 3) [], .advance 1 (second 3) [],
  .advance 1 (second 3) [], .advance 1 (second 3) (str "run_3"),
  .retryRun 1 runId none, .retryRun 2 runId none,
  .advance 1 (second 4) [], .advance 1 (second 4) [], .advance 2 (second 4) [], .advance 2 (second 4) [],
  .advance 1 (second 4) [], .advance 1 (second 4) [], .advance 1 (second 4) (str "run_4"),
  .advance 2 (second 4) [], .advance 2 (second 4) [], .advance 2 (second 4) (str "run_5")]

/-- What a call returned. -/
def outcome : Call → Option (Str × Bool)
  | .returned _ run new => some (run.id, new)
  | _ => none

theorem outcome_of_returns {s : System} {run : Run} {now : DateTime} {id : Str}
    (h : Returns host s 1 now id args run) :
    outcome ((s.next host (.advance 1 now id)).calls 1) = some (run.id, false) := by
  obtain ⟨r', hr', hnext⟩ := h
  rw [hnext]
  show outcome (Function.update s.calls 1 (.returned args r' false) 1) = _
  rw [Function.update_self]
  exact congrArg (fun id => some (id, false)) (Table.key_of_get? hr')

/-- The system after a history of the sample. -/
def after (labels : List Label) : System := (System.start start).run host labels

/-- The definition of the Agent. -/
def writer : Definition := start.definitions.head (by decide)

theorem created_isSome : ((after created).db.run? runId).isSome = true := by decide +kernel

def createdRun : Run := ((after created).db.run? runId).get created_isSome

end RetrySample

open DenialSample RetrySample in
/-- A replay right after the creation, and one retry. -/
theorem creations_bounded_retried :
    (Returns host (after (created ++ again)) 1 (second 1) (str "run_2") args createdRun ↔
      Persists env (after (created ++ again)).db (second 1) writer args createdRun) ∧
    (host.retries (after retried).db (str "ses_1") (.text runId)).length ≤ maxRunRetries := by
  have hbounded := creations_bounded host start
  have hreturned : (after created).calls 0 = .returned args createdRun true := rfl
  have hcall : (after (created ++ again)).calls 1 = .checked args writer none := rfl
  have hundisturbed : System.Every host (Undisturbed host) (System.start start) retried := by
    decide +kernel
  exact ⟨hbounded.1 created again 0 1 args createdRun true writer none (second 1) (str "run_2") hreturned
    nofun hcall, hbounded.2 retried hundisturbed (str "ses_1") (.text runId)⟩

open DenialSample RetrySample in
/-- **A replay is refused after an update of the package**, and a root attempt is retried four times. -/
theorem replay_refused :
    outcome ((after created).calls 0) = some (runId, true) ∧
    ¬ Returns host (after (created ++ updated :: again)) 1 (second 1) (str "run_2") args createdRun ∧
    (host.retries (after raced).db (str "ses_1") (.text runId)).length = 4 := by
  refine ⟨by decide +kernel, fun h => ?_, by decide +kernel⟩
  have houtcome := outcome_of_returns h
  have hnone : outcome (((after (created ++ updated :: again)).next host
      (.advance 1 (second 1) (str "run_2"))).calls 1) = none := by decide +kernel
  exact nomatch hnone.symm.trans houtcome

end AI2Apps.Agents
