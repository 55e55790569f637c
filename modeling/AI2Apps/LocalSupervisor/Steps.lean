import AI2Apps.LocalSupervisor.Ownership

/-!
# The supervisor owns its Local process: sections

What one section does to the invariant: it leaves the actor as it is, clears the record
with no live process left, or is one of the few that write the record.

* `Invariant.recall`, `Invariant.change`, `Invariant.cleared`: the ways to keep it.
* `invariant_start`, `invariant_stop`, `invariant_resume`: one lemma for each section.
-/

namespace AI2Apps.LocalSupervisor

open Faults

/-! ## Live processes -/

section Live

variable {s : Supervisor} {p q : ProcessID}

theorem processes_mark (f : OSProcess → OSProcess) : (s.mark p f).processes q =
    if q = p then (s.processes q).map f else s.processes q := rfl

theorem live_mark (f : OSProcess → OSProcess) : (s.mark p f).live q =
    if q = p then ((s.processes q).map f).any OSProcess.live else s.live q := by
  unfold Supervisor.live
  rw [processes_mark]
  split <;> rfl

theorem running_of_live (h : s.live q = true) : s.isProcessRunning q = true := by
  unfold Supervisor.live at h
  unfold Supervisor.isProcessRunning
  cases hx : s.processes q with
  | none => simp [hx] at h
  | some x =>
    rw [hx, Option.any_some, OSProcess.live, Bool.and_eq_true, Bool.and_eq_true] at h
    exact h.1.1

theorem live_tell : (s.tell p).live q = true ↔ s.live q = true ∧ q ≠ p := by
  unfold Supervisor.tell
  rw [live_mark]
  split
  · rename_i hq
    cases s.processes q <;> simp [OSProcess.live, hq]
  · rename_i hq
    simp [hq]

theorem running_tell : (s.tell p).isProcessRunning q = s.isProcessRunning q := by
  unfold Supervisor.isProcessRunning Supervisor.tell
  rw [processes_mark]
  split
  · rw [Option.any_map]
  · rfl

/-- After `terminate` the child is not live, whether it was running or not. -/
theorem live_terminate : (s.terminate p).live q = true ↔ s.live q = true ∧ q ≠ p := by
  unfold Supervisor.terminate
  split
  · exact live_tell
  · rename_i hrunning
    refine ⟨fun h => ⟨h, fun hq => hrunning ?_⟩, fun h => h.1⟩
    exact running_of_live (hq ▸ h)

theorem live_exit (h : (s.mark p fun x => { x with running := false }).live q = true) :
    s.live q = true := by
  rw [live_mark] at h
  split at h
  · cases hx : s.processes q with
    | none => simp [hx] at h
    | some x => simp [hx, OSProcess.live] at h
  · exact h

theorem live_own (h : (s.mark p fun x => { x with owned := true }).live q = true) :
    s.live q = true ∨ q = p := by
  rw [live_mark] at h
  split at h
  · exact Or.inr ‹_›
  · exact Or.inl h

theorem live_spawn {owned : Bool} (h : (s.spawn owned).live q = true) :
    (q = s.nextProcess ∧ owned = true) ∨ s.live q = true := by
  unfold Supervisor.spawn Supervisor.live at h
  dsimp only at h
  split at h
  · refine Or.inl ⟨‹_›, ?_⟩
    cases owned
    · simp [OSProcess.live] at h
    · rfl
  · exact Or.inr h

end Live

/-! ## Keeping the invariant -/

section Keep

variable {a a' : Supervisor} {calls : ℕ → Option Call} {id : ℕ} {new : Option Call}

theorem exists_call_update {P : Call → Prop}
    (hkeep : ∀ c, calls id = some c → P c → ∃ c', new = some c' ∧ P c')
    (h : ∃ i c, calls i = some c ∧ P c) :
    ∃ i c, Function.update calls id new i = some c ∧ P c := by
  obtain ⟨i, c, hc, hP⟩ := h
  by_cases hi : i = id
  · subst hi
    obtain ⟨c', hnew, hP'⟩ := hkeep c hc hP
    exact ⟨i, c', by rw [Function.update_self, hnew], hP'⟩
  · exact ⟨i, c, by rw [Function.update_of_ne hi, hc], hP⟩

theorem call_update {i : ℕ} {c : Call} (h : Function.update calls id new i = some c) :
    new = some c ∨ calls i = some c := by
  by_cases hi : i = id
  · subst hi
    rw [Function.update_self] at h
    exact Or.inl h
  · rw [Function.update_of_ne hi] at h
    exact Or.inr h

/-- The call that takes the place of another plays the same part. -/
structure Recalls (a : Supervisor) (old new : Option Call) : Prop where
  fits : ∀ c, new = some c → c.Fits a
  keeps : ∀ c x, old = some c → c.starting = some x → ∃ c', new = some c' ∧ c'.starting = some x
  adds : ∀ c x, new = some c → c.starting = some x → ∃ c', old = some c' ∧ c'.starting = some x
  stops : ∀ c, old = some c → c.isStop = true → ∃ c', new = some c' ∧ c'.isStop = true

/-- A call that is neither a `start` nor a `stop` goes without a trace. -/
theorem Recalls.over {old : Option Call} (h : ∀ c, old = some c → c.starting = none ∧ c.isStop = false) :
    Recalls a old none where
  fits := nofun
  keeps c x hold hstart := by rw [(h c hold).1] at hstart; exact nomatch hstart
  adds := nofun
  stops c hold hstop := by rw [(h c hold).2] at hstop; exact nomatch hstop

theorem StateFits.recall {state : SupervisorState} (h : StateFits ⟨a, calls⟩ state)
    (hnew : Recalls a (calls id) new) : StateFits ⟨a, Function.update calls id new⟩ state := by
  cases state with
  | stopping processID => exact ⟨h.1, exists_call_update (fun c hc => hnew.stops c hc) h.2⟩
  | migrating processID bootID =>
    obtain ⟨hnone, hprocess, hboot, hwaits, hown⟩ := h
    refine ⟨hnone, hprocess, hboot, exists_call_update (fun c hc => hnew.keeps c _ hc) hwaits, ?_⟩
    intro i c child hc hstart
    rcases call_update hc with hc | hc
    · obtain ⟨c', hold, hstart'⟩ := hnew.adds c _ hc hstart
      exact hown id c' child hold hstart'
    · exact hown i c child hc hstart
  | stopped | validatingRuntime | starting | ready | degraded | failed => exact h

theorem Invariant.recall (hs : Invariant ⟨a, calls⟩) (hnew : Recalls a (calls id) new) :
    Invariant ⟨a, Function.update calls id new⟩ where
  owned := hs.owned
  paired := hs.paired
  state := hs.state.recall hnew
  pending child hprocess hnone := by
    obtain ⟨i, c, bootID, hc, hstart⟩ := hs.pending child hprocess hnone
    have hkept : ∃ i c, Function.update calls id new i = some c ∧
        c.starting = some (child, bootID) :=
      exists_call_update (fun c hc => hnew.keeps c (child, bootID) hc) ⟨i, c, hc, hstart⟩
    obtain ⟨i', c', hc', hstart'⟩ := hkept
    exact ⟨i', c', bootID, hc', hstart'⟩
  calls i c hc := (call_update hc).elim (hnew.fits c) (hs.calls i c)
  fresh := hs.fresh
  positive := hs.positive

/-- The same fields of the actor, and no process live that was not. -/
structure Fewer (a a' : Supervisor) : Prop where
  state : a'.state = a.state
  process : a'.process = a.process
  managed : a'.managedDescriptor = a.managedDescriptor
  boot : a'.nextBoot = a.nextBoot
  live : ∀ p, a'.live p = true → a.live p = true
  fresh : (∀ p, a.nextProcess ≤ p → a.processes p = none) →
    ∀ p, a'.nextProcess ≤ p → a'.processes p = none
  next : a.nextProcess ≤ a'.nextProcess

theorem Fewer.of_mark {f : OSProcess → OSProcess} {p : ProcessID}
    (h : ∀ q, (a.mark p f).live q = true → a.live q = true) : Fewer a (a.mark p f) where
  state := rfl
  process := rfl
  managed := rfl
  boot := rfl
  live := h
  fresh hfresh q hq := by
    rw [processes_mark, hfresh q hq]
    split <;> rfl
  next := Nat.le_refl _

theorem Fewer.tell (p : ProcessID) : Fewer a (a.tell p) :=
  .of_mark fun _ h => (live_tell.mp h).1

theorem Fewer.refl : Fewer a a := ⟨rfl, rfl, rfl, rfl, fun _ h => h, fun h => h, Nat.le_refl _⟩

theorem Fewer.terminate (p : ProcessID) : Fewer a (a.terminate p) := by
  unfold Supervisor.terminate
  split
  · exact .tell p
  · exact .refl

theorem Fewer.appear (h : ∀ p, a.nextProcess ≤ p → a.processes p = none) :
    Fewer a (a.spawn false) where
  state := rfl
  process := rfl
  managed := rfl
  boot := rfl
  live p hp := (live_spawn hp).elim (fun h => nomatch h.2) id
  fresh _ p hp := by
    have hne : p ≠ a.nextProcess := Nat.ne_of_gt (Nat.lt_of_succ_le hp)
    show (if p = a.nextProcess then _ else a.processes p) = none
    rw [if_neg hne]
    exact h p (Nat.le_of_succ_le hp)
  next := Nat.le_succ _

theorem Call.Fits.mono {c : Call} (h : c.Fits a) (hboot : a.nextBoot ≤ a'.nextBoot) :
    c.Fits a' := by
  cases c with
  | fetching => exact ⟨Nat.lt_of_lt_of_le h.1 hboot, h.2⟩
  | sleeping => exact ⟨Nat.lt_of_lt_of_le h.1 hboot, h.2⟩
  | adopting | verifying | grace | checking => trivial

theorem Supervisor.Records.of_eq {p : ProcessID} (h : a.Records p) (hprocess : a'.process = a.process)
    (hmanaged : a'.managedDescriptor = a.managedDescriptor) : a'.Records p := by
  unfold Supervisor.Records
  rw [hprocess, hmanaged]
  exact h

theorem Owned.fewer (h : Owned a) (hlive : ∀ p, a'.live p = true → a.live p = true)
    (hprocess : a'.process = a.process)
    (hmanaged : a'.managedDescriptor = a.managedDescriptor) : Owned a' where
  single p q hp hq := h.single p q (hlive p hp) (hlive q hq)
  recorded p hp := (h.recorded p (hlive p hp)).of_eq hprocess hmanaged

theorem Invariant.fewer (hs : Invariant ⟨a, calls⟩) (h : Fewer a a') : Invariant ⟨a', calls⟩ where
  owned := hs.owned.fewer h.live h.process h.managed
  paired child d hchild hd hlive :=
    hs.paired child d (h.process ▸ hchild) (h.managed ▸ hd) (h.live child hlive)
  state := by
    have hstate := hs.state
    show StateFits ⟨a', calls⟩ a'.state
    rw [h.state]
    unfold StateFits at hstate ⊢
    simp only [h.process, h.managed, h.boot]
    exact hstate
  pending child hchild hnone := hs.pending child (h.process ▸ hchild) (h.managed ▸ hnone)
  calls i c hc := (hs.calls i c hc).mono (Nat.le_of_eq h.boot.symm)
  fresh := h.fresh hs.fresh
  positive := Nat.lt_of_lt_of_le hs.positive h.next

/-- An actor without a Local: nothing is live. -/
structure Cleared (a : Supervisor) : Prop where
  state : a.state.isIdle = true
  process : a.process = none
  managed : a.managedDescriptor = none
  dead : ∀ p, a.live p = true → False
  fresh : ∀ p, a.nextProcess ≤ p → a.processes p = none
  positive : 0 < a.nextProcess

theorem Cleared.invariant (h : Cleared a) (hcalls : ∀ i c, calls i = some c → c.Fits a) :
    Invariant ⟨a, calls⟩ where
  owned := ⟨fun p _ hp _ => (h.dead p hp).elim, fun p hp => (h.dead p hp).elim⟩
  paired child _ _ _ hlive := (h.dead child hlive).elim
  state := by
    have hidle := h.state
    show StateFits ⟨a, calls⟩ a.state
    cases hstate : a.state with
    | stopped => exact h.managed
    | failed => exact h.managed
    | validatingRuntime | starting | migrating | ready | degraded | stopping =>
      rw [hstate] at hidle
      exact nomatch hidle
  pending child hchild _ := by
    rw [show a.process = none from h.process] at hchild
    exact nomatch hchild
  calls := hcalls
  fresh := h.fresh
  positive := h.positive

theorem Invariant.terminated (hs : Invariant ⟨a, calls⟩) {p : ProcessID} (hp : a.OnlyLive p)
    {state : SupervisorState} (hstate : state.isIdle = true) :
    Cleared ((a.terminate p).clear state) where
  state := hstate
  process := rfl
  managed := rfl
  dead q hq := by
    have hlive : a.live q = true ∧ q ≠ p := live_terminate.mp hq
    exact hlive.2 (hp q hlive.1)
  fresh := (Fewer.terminate p).fresh hs.fresh
  positive := Nat.lt_of_lt_of_le hs.positive (Fewer.terminate p).next

/-- With a descriptor on record no process is live but its own. -/
theorem Invariant.onlyLive (hs : Invariant ⟨a, calls⟩) {d : LocalRunDescriptor}
    (hd : a.managedDescriptor = some d) : a.OnlyLive d.processID := by
  intro p hp
  rcases hs.owned.recorded p hp with hprocess | ⟨d', hd', rfl⟩
  · exact hs.paired p d hprocess hd hp
  · rw [hd] at hd'
    rw [Option.some.inj hd']

end Keep

/-! ## Sections -/

section Rules

variable {α : Type} {Q : Unit → Supervisor → Prop} {E : Failure → Supervisor → Prop}
  {a : Supervisor}

theorem wp_ensure {condition : Bool} {e : Failure} (hQ : condition = true → Q () a)
    (hE : condition = false → E e a) : wp (ensure condition e) Q E a := by
  cases condition with
  | true => exact hQ rfl
  | false => exact hE rfl

@[simp] theorem wp_system_none : wp (system none) Q E a ↔ Q () a := Iff.rfl

@[simp] theorem wp_system_some (e : String) :
    wp (system (some e)) Q E a ↔ E (.other e) a := Iff.rfl

theorem wp_system {error : Option String} (hQ : Q () a)
    (hE : ∀ e, error = some e → E (.other e) a) : wp (system error) Q E a := by
  cases error with
  | none => exact hQ
  | some e => exact hE e rfl

theorem wp_transition {event : SupervisorEvent}
    (hQ : ∀ state, reduce a.state event = .ok state → Q () { a with state := state })
    (hE : ∀ e, reduce a.state event = .error e → E e a) : wp (transition event) Q E a := by
  unfold transition
  rw [wp_bind, wp_get, wp_bind]
  cases h : reduce a.state event with
  | ok state => exact hQ state h
  | error e => exact hE e h

theorem perform_of_wp {P : System → Prop} {s : System} {id : ℕ} {section' : Section (Option Call)}
    (h : wp section' (fun call a => P ⟨a, Function.update s.calls id call⟩)
      (fun _ a => P ⟨a, Function.update s.calls id none⟩) s.actor) :
    P (s.perform id section') := by
  unfold System.perform
  unfold wp at h
  cases hrun : section'.run s.actor with
  | ok call a => rw [hrun] at h; exact h
  | error e a => rw [hrun] at h; exact h

end Rules

section Waiting

variable {a : Supervisor} {child : ProcessID} {bootID : BootID}

/-- One iteration of `waitUntilReady` changes nothing; it goes on with a descriptor of
this run, or throws, but not because it is refused. -/
theorem iterate_spec {validated : Option LocalRunDescriptor} {poll : Poll}
    (hvalidated : ∀ d, validated = some d → d.IsOf child bootID) :
    wp (iterate child bootID validated poll)
      (fun call a' => a' = a ∧ ∃ known, call = nextCall child bootID known ∧
        ∀ d, known = some d → d.IsOf child bootID)
      (fun e a' => a' = a ∧ ¬ a.PollsOn child bootID validated poll ∧ e.isRejection = false) a := by
  unfold iterate
  rw [wp_bind]
  refine wp_ensure (fun htime => ?_) fun htime => ⟨rfl, fun h => ?_, rfl⟩
  swap
  · rw [h.1] at htime
    exact nomatch htime
  rw [wp_bind, wp_get, wp_bind]
  refine wp_ensure (fun hrunning => ?_) fun hrunning => ⟨rfl, fun h => ?_, rfl⟩
  swap
  · rw [h.2.1] at hrunning
    exact nomatch hrunning
  rw [wp_bind]
  unfold readDescriptor
  split
  · exact ⟨rfl, _, rfl, hvalidated⟩
  · rename_i e hfile
    exact ⟨rfl, fun h => by simpa [Poll.Fits, hfile] using h.2.2 rfl, rfl⟩
  · exact ⟨rfl, _, rfl, nofun⟩
  · rename_i d hfile
    have hfits : a.PollsOn child bootID none poll → d.IsOf child bootID := fun h => by
      simpa [Poll.Fits, hfile] using h.2.2 rfl
    unfold checkDescriptor
    rw [wp_bind, wp_bind]
    refine wp_ensure (fun hboot => ?_) fun hboot => ⟨rfl, fun h => ?_, rfl⟩
    · refine wp_ensure (fun hchild => ?_) fun hchild => ⟨rfl, fun h => ?_, rfl⟩
      · refine ⟨rfl, _, rfl, fun d' hd' => ?_⟩
        obtain rfl := Option.some.inj hd'
        exact ⟨of_decide_eq_true hboot, of_decide_eq_true hchild⟩
      · exact of_decide_eq_false hchild (hfits h).2
    · exact of_decide_eq_false hboot (hfits h).1

theorem starting_nextCall (known : Option LocalRunDescriptor) :
    (nextCall child bootID known).starting = some (child, bootID) := by
  cases known <;> rfl

theorem fits_nextCall {known : Option LocalRunDescriptor} (hboot : bootID < a.nextBoot)
    (hknown : ∀ d, known = some d → d.IsOf child bootID) :
    (nextCall child bootID known).Fits a := by
  cases known with
  | none => exact ⟨hboot, nofun⟩
  | some d => exact ⟨hboot, hknown d rfl⟩

/-- Only a start that has spawned its child becomes ready. -/
theorem reduce_localReady {state state' : SupervisorState} {d : LocalRunDescriptor}
    {invalid : Option String} (h : reduce state (.localReady d invalid) = .ok state') :
    ((∃ p, state = .migrating p d.bootID) ∨ state = .starting d.bootID) ∧ state' = .ready ⟨d⟩ := by
  have hready : ∀ expected, localReady expected d invalid = .ok state' →
      expected = d.bootID ∧ state' = .ready ⟨d⟩ := by
    intro expected h
    unfold localReady at h
    split at h
    · unfold sameBoot at h
      split at h
      · exact ⟨‹_›, (Except.ok.inj h).symm⟩
      · exact nomatch h
    · split at h <;> exact nomatch h
  cases state with
  | migrating p expected =>
    obtain ⟨rfl, hstate⟩ := hready expected h
    exact ⟨Or.inl ⟨p, rfl⟩, hstate⟩
  | starting expected =>
    obtain ⟨rfl, hstate⟩ := hready expected h
    exact ⟨Or.inr rfl, hstate⟩
  | stopped | validatingRuntime | ready | degraded | stopping | failed => exact nomatch h

end Waiting

end AI2Apps.LocalSupervisor
