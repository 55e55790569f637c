import AI2Apps.LocalSupervisor.Steps

/-!
# The supervisor owns its Local process: every interleaving

The invariant is kept by every section, so it holds in every history whose events meet
the condition; there the supervisor owns its process, and is ready, stopped or failed
when no call is in flight.

* `supervisor_owns`: in every history.
* `forgotten_child`: a `start` that was stopped fails after another has taken its place.
-/

namespace AI2Apps.LocalSupervisor

open Faults

variable {a : Supervisor} {calls : ℕ → Option Call} {id : ℕ}

/-! ## Idle actors -/

theorem idle_iff : a.idle = true ↔
    a.process = none ∧ a.managedDescriptor = none ∧ a.state.isRunningLike = false := by
  simp [Supervisor.idle, and_assoc]

theorem Supervisor.not_records (hprocess : a.process = none) (hmanaged : a.managedDescriptor = none)
    (p : ProcessID) : ¬ a.Records p := by
  rintro (h | ⟨d, h, -⟩)
  · rw [hprocess] at h
    exact nomatch h
  · rw [hmanaged] at h
    exact nomatch h

/-- Where nothing is on record nothing is live, and the state is `stopped` or `failed`. -/
theorem Invariant.cleared (hs : Invariant ⟨a, calls⟩) (hprocess : a.process = none)
    (hmanaged : a.managedDescriptor = none) : Cleared a where
  state := by
    have hstate : StateFits ⟨a, calls⟩ a.state := hs.state
    cases h : a.state with
    | stopped => rfl
    | failed => rfl
    | migrating p bootID =>
      rw [h] at hstate
      have hchild : a.process = some p := hstate.2.1
      rw [hprocess] at hchild
      exact nomatch hchild
    | ready => rw [h] at hstate; exact absurd hmanaged hstate
    | degraded => rw [h] at hstate; exact absurd hmanaged hstate
    | stopping => rw [h] at hstate; exact absurd hmanaged hstate.1
    | validatingRuntime => rw [h] at hstate; exact hstate.elim
    | starting => rw [h] at hstate; exact hstate.elim
  process := hprocess
  managed := hmanaged
  dead p hp := a.not_records hprocess hmanaged p (hs.owned.recorded p hp)
  fresh := hs.fresh
  positive := hs.positive

variable {state : SupervisorState} {call : Call} {s : System} {child p : ProcessID} {d : LocalRunDescriptor}

theorem reduce_requestStart (h : state.isIdle = true) (bootID : BootID) :
    reduce state (.requestStart bootID) = .ok (.validatingRuntime bootID) := by
  cases state with
  | stopped | failed => rfl
  | validatingRuntime | starting | migrating | ready | degraded | stopping => exact nomatch h

/-! ## `start` -/

theorem nextBoot_terminated :
    ((a.terminate child).clear state).nextBoot = a.nextBoot := (Fewer.terminate child).boot

/-- A call that has not begun leaves the calls as they are. -/
theorem Invariant.absent (hs : Invariant ⟨a, calls⟩) (hid : calls id = none) :
    Invariant ⟨a, Function.update calls id none⟩ := by
  rw [← hid, Function.update_eq_self]
  exact hs

/-- The actor whose child has just been spawned. -/
def Supervisor.launched (a : Supervisor) (state : SupervisorState) : Supervisor :=
  { { a with nextBoot := a.nextBoot + 1 }.spawn true with
    process := some a.nextProcess, managedDescriptor := none, state := state }

theorem live_launched (ha : Cleared a) (h : (a.launched state).live p = true) : p = a.nextProcess :=
  (live_spawn (s := a) h).elim (fun h => h.1) fun h => (ha.dead p h).elim

theorem fresh_launched (ha : Cleared a) (p : ProcessID) (hp : (a.launched state).nextProcess ≤ p) :
    (a.launched state).processes p = none := by
  have hne : p ≠ a.nextProcess := Nat.ne_of_gt (Nat.lt_of_succ_le hp)
  show (if p = a.nextProcess then _ else a.processes p) = none
  rw [if_neg hne]
  exact ha.fresh p (Nat.le_of_succ_le hp)

/-- A child of a new boot that is on its way. -/
theorem Cleared.spawned (ha : Cleared a) (hcalls : ∀ i c, calls i = some c → c.Fits a)
    (hstart : call.starting = some (a.nextProcess, a.nextBoot))
    (hfits : call.Fits (a.launched (.migrating a.nextProcess a.nextBoot))) :
    Invariant ⟨a.launched (.migrating a.nextProcess a.nextBoot),
      Function.update calls id (some call)⟩ := by
  have hold : ∀ i c, Function.update calls id (some call) i = some c → call = c ∨ c.Fits a :=
    fun i c hc => (call_update hc).imp Option.some.inj (hcalls i c)
  refine { owned := ⟨fun p q hp hq => ?_, fun p hp => ?_⟩, paired := ?_, state := ?_,
           pending := ?_, calls := ?_, fresh := fresh_launched ha, positive := Nat.succ_pos _ }
  · rw [live_launched ha hp, live_launched ha hq]
  · exact Or.inl (congrArg some (live_launched ha hp).symm)
  · exact fun _ _ _ hmanaged => nomatch hmanaged
  · refine ⟨rfl, rfl, Nat.lt_succ_self _, ⟨id, call, Function.update_self .., hstart⟩, ?_⟩
    intro i c child hc hchild
    rcases hold i c hc with rfl | hc
    · rw [hstart] at hchild
      exact (congrArg Prod.fst (Option.some.inj hchild)).symm
    · cases c with
      | fetching =>
        obtain rfl := congrArg Prod.snd (Option.some.inj hchild)
        exact absurd hc.1 (Nat.lt_irrefl _)
      | sleeping =>
        obtain rfl := congrArg Prod.snd (Option.some.inj hchild)
        exact absurd hc.1 (Nat.lt_irrefl _)
      | adopting | verifying | grace | checking => exact nomatch hchild
  · intro child hchild _
    obtain rfl := Option.some.inj hchild
    exact ⟨id, call, a.nextBoot, Function.update_self .., hstart⟩
  · intro i c hc
    rcases hold i c hc with rfl | hc
    · exact hfits
    · exact hc.mono (Nat.le_succ _)

/-- The child that has just been spawned is told to terminate when its first poll throws. -/
theorem Cleared.spawnFailed (ha : Cleared a) (message : String) :
    Cleared (((a.launched state).terminate a.nextProcess).clear (.failed message 0)) where
  state := rfl
  process := rfl
  managed := rfl
  dead p hp := by
    have hlive : (a.launched state).live p = true ∧ p ≠ a.nextProcess := live_terminate.mp hp
    exact hlive.2 (live_launched ha hlive.1)
  fresh := (Fewer.terminate a.nextProcess).fresh (fresh_launched ha)
  positive := Nat.lt_of_lt_of_le (Nat.succ_pos a.nextProcess)
    (Fewer.terminate (a := a.launched state) a.nextProcess).next

/-- What a section clears has no part in the calls. -/
theorem Cleared.over (h : Cleared a) {b : Supervisor} (hcalls : ∀ i c, calls i = some c → c.Fits b)
    (hboot : b.nextBoot ≤ a.nextBoot) : Invariant ⟨a, Function.update calls id none⟩ :=
  h.invariant fun i c hc => ((call_update hc).elim nofun (hcalls i c)).mono hboot

/-- From a cleared actor `start` spawns a child and waits for it, or throws without being
refused; then the actor is cleared again, if nothing throws before the child is there. -/
theorem start_spec (ha : Cleared a) (input : StartInput) :
    wp (start input)
      (fun call a' => a' = a.launched (.migrating a.nextProcess a.nextBoot) ∧
        ∃ known, call = some (nextCall a.nextProcess a.nextBoot known) ∧
          ∀ d, known = some d → d.IsOf a.nextProcess a.nextBoot)
      (fun e a' => e.isRejection = false ∧
        (input.Sound → Cleared a' ∧ a.nextBoot ≤ a'.nextBoot)) a := by
  have hidle : a.idle = true := by
    refine idle_iff.mpr ⟨ha.process, ha.managed, ?_⟩
    have hstate := ha.state
    cases h : a.state with
    | stopped | failed | validatingRuntime => rfl
    | starting | migrating | ready | degraded | stopping =>
      rw [h] at hstate
      exact nomatch hstate
  unfold start requireIdle
  rw [wp_bind, wp_bind, wp_get]
  refine wp_ensure (fun _ => ?_) fun h => absurd (hidle.symm.trans h) nofun
  unfold newBootID
  rw [wp_bind, wp_bind, wp_get, wp_bind, wp_set, wp_pure, wp_bind]
  refine wp_transition (fun state hstate => ?_) fun e he => ?_
  swap
  · rw [reduce_requestStart ha.state] at he
    exact nomatch he
  rw [reduce_requestStart ha.state] at hstate
  obtain rfl := Except.ok.inj hstate
  rw [wp_bind]
  unfold checkConflict StartInput.Sound
  cases hconflict : input.conflict with
  | error e => exact ⟨rfl, False.elim⟩
  | ok conflict =>
    cases conflict with
    | some port =>
      refine ⟨rfl, fun _ => ⟨?_, Nat.le_succ _⟩⟩
      exact ⟨rfl, ha.process, ha.managed, ha.dead, ha.fresh, ha.positive⟩
    | none =>
      rw [wp_pure, wp_bind]
      refine wp_system ?_ fun e he => ⟨rfl, fun h => ?_⟩
      swap
      · exact absurd (he.symm.trans h.1) nofun
      rw [wp_bind]
      refine wp_system ?_ fun e he => ⟨rfl, fun h => ?_⟩
      swap
      · exact absurd (he.symm.trans h.2.1) nofun
      rw [wp_bind]
      refine wp_transition (fun state hstate => ?_) fun e he => ?_
      swap
      · simp [reduce, sameBoot] at he
      obtain rfl : state = .starting a.nextBoot := by
        simpa [reduce, sameBoot] using hstate.symm
      rw [wp_bind]
      refine wp_system ?_ fun e he => ⟨rfl, fun h => ?_⟩
      swap
      · exact absurd (he.symm.trans h.2.2.1) nofun
      unfold runChild
      rw [wp_bind, wp_bind]
      refine wp_system ?_ fun e he => ⟨rfl, fun h => ?_⟩
      swap
      · exact absurd (he.symm.trans h.2.2.2) nofun
      rw [wp_bind, wp_get, wp_bind, wp_set, wp_pure, wp_bind]
      refine wp_transition (fun state hstate => ?_) fun e he => ?_
      swap
      · simp [reduce, Nat.ne_of_gt ha.positive, Supervisor.spawn] at he
      obtain rfl : state = .migrating a.nextProcess a.nextBoot := by
        simpa [reduce, Nat.ne_of_gt ha.positive, Supervisor.spawn] using hstate.symm
      rw [wp_map, wp_tryCatch]
      refine wp_mono (iterate_spec nofun) (fun call a' h => ?_) fun e a' h => ?_
      · obtain ⟨rfl, known, rfl, hknown⟩ := h
        exact ⟨rfl, known, rfl, hknown⟩
      · obtain ⟨rfl, -, he⟩ := h
        refine ⟨he, fun _ => ⟨ha.spawnFailed _, ?_⟩⟩
        rw [nextBoot_terminated]
        exact Nat.le_succ _

theorem start_refused (hidle : a.idle = false) {input : StartInput}
    {Q : Option Call → Supervisor → Prop} {E : Failure → Supervisor → Prop}
    (hE : E .alreadyRunning a) : wp (start input) Q E a := by
  unfold start requireIdle
  rw [wp_bind, wp_bind, wp_get]
  exact wp_ensure (fun h => absurd (hidle.symm.trans h) nofun) fun _ => hE

theorem invariant_start (hs : Invariant ⟨a, calls⟩) (hid : calls id = none) {input : StartInput}
    (hinput : a.idle = true → input.Sound) :
    wp (start input) (fun call a' => Invariant ⟨a', Function.update calls id call⟩)
      (fun _ a' => Invariant ⟨a', Function.update calls id none⟩) a := by
  cases hidle : a.idle with
  | false => exact start_refused hidle (hs.absent hid)
  | true =>
    obtain ⟨hprocess, hmanaged, -⟩ := idle_iff.mp hidle
    have ha : Cleared a := hs.cleared hprocess hmanaged
    refine wp_mono (start_spec ha input) (fun call a' h => ?_) fun e a' h => ?_
    · obtain ⟨rfl, known, rfl, hknown⟩ := h
      exact ha.spawned hs.calls (starting_nextCall known)
        (fits_nextCall (Nat.lt_succ_self _) hknown)
    · obtain ⟨hcleared, hboot⟩ := h.2 (hinput hidle)
      exact hcleared.over hs.calls hboot

/-! ## `adoptRunningLocal` and `healthCheck` -/

/-- A call that begins without a part in starting or stopping. -/
theorem Invariant.begin (hs : Invariant ⟨a, calls⟩) (hid : calls id = none) (hfits : call.Fits a)
    (hstart : call.starting = none) :
    Invariant ⟨a, Function.update calls id (some call)⟩ := by
  refine hs.recall ⟨?_, ?_, ?_, ?_⟩
  · intro c hc
    exact Option.some.inj hc ▸ hfits
  · intro c x hc
    rw [hid] at hc
    exact nomatch hc
  · intro c x hc hx
    rw [← Option.some.inj hc, hstart] at hx
    exact nomatch hx
  · intro c hc
    rw [hid] at hc
    exact nomatch hc

theorem invariant_adopt (hs : Invariant ⟨a, calls⟩) (hid : calls id = none)
    (file : Except String (Option LocalRunDescriptor)) :
    wp (adoptRunningLocal file) (fun call a' => Invariant ⟨a', Function.update calls id call⟩)
      (fun _ a' => Invariant ⟨a', Function.update calls id none⟩) a := by
  unfold adoptRunningLocal requireIdle
  rw [wp_bind, wp_bind, wp_get]
  refine wp_ensure (fun _ => ?_) fun _ => hs.absent hid
  split
  · exact hs.absent hid
  · exact hs.absent hid
  · rw [wp_bind, wp_get, wp_pure]
    split
    · exact hs.begin hid trivial rfl
    · exact hs.absent hid

theorem invariant_healthCheck (hs : Invariant ⟨a, calls⟩) (hid : calls id = none) :
    wp healthCheck (fun call a' => Invariant ⟨a', Function.update calls id call⟩)
      (fun _ a' => Invariant ⟨a', Function.update calls id none⟩) a := by
  unfold healthCheck
  rw [wp_bind, wp_get]
  split
  · exact hs.begin hid trivial rfl
  · exact hs.begin hid trivial rfl
  · exact hs.absent hid

/-! ## `stop` -/

/-- A new state that says the same of the record. -/
theorem Invariant.restate (hs : Invariant ⟨a, calls⟩) (hstate : StateFits ⟨a, calls⟩ state) :
    Invariant ⟨{ a with state := state }, calls⟩ where
  owned := ⟨hs.owned.single, hs.owned.recorded⟩
  paired := hs.paired
  state := hstate
  pending := hs.pending
  calls := hs.calls
  fresh := hs.fresh
  positive := hs.positive

theorem wp_signalTerm (child : Option ProcessID) (d : LocalRunDescriptor)
    {Q : Unit → Supervisor → Prop} {E : Failure → Supervisor → Prop}
    (hQ : ∀ a', Fewer a a' → (∀ p, a'.isProcessRunning p = a.isProcessRunning p) → Q () a') :
    wp (signalTerm child d) Q E a := by
  unfold signalTerm
  rw [wp_modify]
  split
  · exact hQ _ (.tell _) fun _ => running_tell
  · exact hQ _ (.tell _) fun _ => running_tell

/-- `stop` sleeps again, or clears the record. -/
theorem awaitExit_spec {timedOut : Bool} {E : Failure → Supervisor → Prop}
    (hs : Invariant ⟨a, Function.update calls id (some (.grace d))⟩)
    (hlive : a.Expired d timedOut → a.OnlyLive d.processID) (hcalls : ∀ i c, calls i = some c → c.Fits a) :
    wp (awaitExit d timedOut) (fun call a' => Invariant ⟨a', Function.update calls id call⟩) E a := by
  unfold awaitExit
  rw [wp_bind, wp_get]
  split
  · exact hs
  · rename_i hexpired
    have hdone : a.Expired d timedOut := by
      simpa [Supervisor.Expired, or_iff_not_imp_left] using hexpired
    refine (hs.terminated (hlive hdone) rfl).invariant fun i c hc => ?_
    refine Call.Fits.mono ((call_update hc).elim nofun (hcalls i c)) ?_
    exact Nat.le_of_eq nextBoot_terminated.symm

theorem attempt_requestStop (hs : StateFits ⟨a, calls⟩ a.state) (hmanaged : a.managedDescriptor ≠ none) :
    ∃ p', a.attempt .requestStop (.stopping (some p)) = { a with state := .stopping p' } := by
  unfold Supervisor.attempt
  cases h : a.state with
  | ready => exact ⟨_, rfl⟩
  | degraded => exact ⟨_, rfl⟩
  | stopping => exact ⟨_, rfl⟩
  | migrating => rw [h] at hs; exact absurd hs.1 hmanaged
  | stopped => rw [h] at hs; exact absurd hs hmanaged
  | failed => rw [h] at hs; exact absurd hs hmanaged
  | validatingRuntime => rw [h] at hs; exact hs.elim
  | starting => rw [h] at hs; exact hs.elim

/-- A `stop` that is on its way. -/
theorem Invariant.stopping (hs : Invariant ⟨a, calls⟩) (hid : calls id = none) (hfits : call.Fits a)
    (hstart : call.starting = none) (hstop : call.isStop = true) (hmanaged : a.managedDescriptor ≠ none)
    (p : Option ProcessID) :
    Invariant ⟨{ a with state := .stopping p }, Function.update calls id (some call)⟩ :=
  (hs.begin hid hfits hstart).restate ⟨hmanaged, id, call, Function.update_self .., hstop⟩

/-- `stop` without a descriptor on record: a child on its way is told to terminate. -/
theorem stopUnmanaged_cleared (hs : Invariant ⟨a, calls⟩) (hmanaged : a.managedDescriptor = none) :
    Cleared { (a.process.map a.terminate).getD a with process := none, state := .stopped } := by
  cases hprocess : a.process with
  | none =>
    have ha := hs.cleared hprocess hmanaged
    exact ⟨rfl, rfl, hmanaged, ha.dead, ha.fresh, ha.positive⟩
  | some child =>
    have hlive : a.OnlyLive child := by
      intro p hp
      rcases hs.owned.recorded p hp with h | ⟨d, h, -⟩
      · exact Option.some.inj (h.symm.trans hprocess)
      · exact absurd (h.symm.trans hmanaged) nofun
    have hstopped : SupervisorState.stopped.isIdle = true := rfl
    have hclear := hs.terminated hlive hstopped
    have hnone : (a.terminate child).managedDescriptor = none :=
      (Fewer.terminate child).managed.trans hmanaged
    exact ⟨rfl, rfl, hnone, hclear.dead, hclear.fresh, hclear.positive⟩

theorem invariant_stop (hs : Invariant ⟨a, calls⟩) (hid : calls id = none) (timedOut : Bool) :
    wp (stop timedOut) (fun call a' => Invariant ⟨a', Function.update calls id call⟩)
      (fun _ a' => Invariant ⟨a', Function.update calls id none⟩) a := by
  unfold stop
  rw [wp_bind, wp_get]
  split
  · rename_i hmanaged
    unfold stopUnmanaged
    rw [wp_bind, wp_modify, wp_pure]
    refine (stopUnmanaged_cleared hs hmanaged).over hs.calls ?_
    cases a.process with
    | none => exact Nat.le_refl _
    | some child => exact Nat.le_of_eq (Fewer.terminate child).boot.symm
  · rename_i d hmanaged
    have hsome : a.managedDescriptor ≠ none := by rw [hmanaged]; exact Option.some_ne_none d
    unfold stopManaged
    obtain ⟨p, hp⟩ := attempt_requestStop (p := d.processID) hs.state hsome
    rw [wp_bind, wp_modify, hp, wp_bind, wp_get]
    split
    · split
      · have hfits : (Call.verifying d).Fits a := trivial
        exact hs.stopping hid hfits rfl rfl hsome p
      · rw [wp_bind]
        refine wp_signalTerm _ d fun a' hfewer _ => ?_
        have hfits : (Call.grace d).Fits a := trivial
        have hstop := (hs.stopping hid hfits rfl rfl hsome p).fewer hfewer
        refine awaitExit_spec hstop (fun _ => hstop.onlyLive (hfewer.managed.trans hmanaged)) ?_
        exact fun i c hc => (hs.calls i c hc).mono (Nat.le_of_eq hfewer.boot.symm)
    · rename_i hgone
      rw [wp_bind, wp_modify, wp_pure]
      refine Cleared.over (b := a) ⟨rfl, rfl, rfl, fun q hq => hgone ?_, hs.fresh, hs.positive⟩
        hs.calls (Nat.le_refl _)
      have hq' : a.live q = true := hq
      exact hs.onlyLive hmanaged q hq' ▸ running_of_live hq'

/-! ## Calls that go on -/

/-- `waitUntilReady` has thrown: the `catch` of `start`. -/
theorem startFailed_spec (hs : Invariant ⟨a, calls⟩) {α : Type} (hlive : a.OnlyLive child) (e : Failure)
    {Q : α → Supervisor → Prop} :
    wp (startFailed child e) Q (fun _ a' => Invariant ⟨a', Function.update calls id none⟩) a := by
  unfold startFailed
  rw [wp_bind, wp_modify, wp_throw]
  exact (hs.terminated hlive rfl).over hs.calls (Nat.le_of_eq nextBoot_terminated.symm)

/-- A start that has become ready. -/
theorem Invariant.ready (hs : Invariant ⟨a, calls⟩) {bootID : BootID}
    (hcall : calls id = some (.fetching child bootID d)) (hstate : a.state = .migrating p d.bootID) :
    Invariant ⟨{ a with state := .ready ⟨d⟩, managedDescriptor := some d },
      Function.update calls id none⟩ := by
  obtain ⟨-, hboot, hchild⟩ := hs.calls id _ hcall
  have hmigrating : StateFits ⟨a, calls⟩ (.migrating p d.bootID) := hstate ▸ hs.state
  obtain ⟨hmanaged, hprocess, -, -, hown⟩ := hmigrating
  replace hmanaged : a.managedDescriptor = none := hmanaged
  replace hprocess : a.process = some p := hprocess
  have hp : child = p := hown id _ child hcall (by rw [hboot]; rfl)
  refine { owned := ⟨hs.owned.single, fun q hq => ?_⟩, paired := ?_, state := Option.some_ne_none d,
           pending := fun _ _ => nofun, calls := ?_, fresh := hs.fresh,
           positive := hs.positive }
  · rcases hs.owned.recorded q hq with h | ⟨d', h, -⟩
    · exact Or.inl h
    · exact absurd (h.symm.trans hmanaged) nofun
  · intro q d' hq hd' _
    obtain rfl := Option.some.inj hd'
    have hqp : q = p := Option.some.inj ((show a.process = some q from hq).symm.trans hprocess)
    rw [hqp, ← hp, hchild]
  · intro i c hc
    exact ((call_update hc).elim nofun (hs.calls i c)).mono (Nat.le_refl _)

/-- An adopted process takes the place of none that is live. -/
theorem Invariant.adopted (hs : Invariant ⟨a, calls⟩) (hlive : a.OnlyLive d.processID) :
    Invariant ⟨{ a.mark d.processID fun p => { p with owned := true } with
      managedDescriptor := some d, state := .ready ⟨d⟩ }, Function.update calls id none⟩ := by
  have hown : ∀ q, (a.mark d.processID fun p => { p with owned := true }).live q = true →
      q = d.processID := fun q hq => (live_own hq).elim (hlive q) fun h => h
  refine { owned := ⟨fun p q hp hq => ?_, fun q hq => ?_⟩, paired := ?_,
           state := Option.some_ne_none d, pending := fun _ _ => nofun, calls := ?_,
           fresh := fun q hq => ?_, positive := hs.positive }
  · rw [hown p hp, hown q hq]
  · exact Or.inr ⟨d, rfl, (hown q hq).symm⟩
  · intro q d' _ hd' hq
    obtain rfl := Option.some.inj hd'
    exact hown q hq
  · intro i c hc
    exact ((call_update hc).elim nofun (hs.calls i c)).mono (Nat.le_refl _)
  · show (a.mark d.processID _).processes q = none
    rw [processes_mark, hs.fresh q hq]
    split <;> rfl

/-- A health check makes a ready state a ready state. -/
theorem checked_eq (error : Option String) : ∃ state, a.checked error = { a with state := state } ∧
    (state = a.state ∨ (a.state.isReady = true ∧ state.isReady = true)) := by
  cases error with
  | none =>
    unfold Supervisor.checked Supervisor.recovered Supervisor.attempt
    cases h : a.state with
    | degraded => exact ⟨_, rfl, Or.inr ⟨rfl, rfl⟩⟩
    | stopped | validatingRuntime | starting | migrating | ready | stopping | failed =>
      exact ⟨a.state, rfl, Or.inl h⟩
  | some e =>
    unfold Supervisor.checked Supervisor.attempt
    cases h : a.state with
    | ready => exact ⟨_, rfl, Or.inr ⟨rfl, rfl⟩⟩
    | degraded => exact ⟨_, rfl, Or.inr ⟨rfl, rfl⟩⟩
    | stopped | validatingRuntime | starting | migrating | stopping | failed =>
      exact ⟨_, rfl, Or.inl rfl⟩

theorem stateFits_of_isReady (h : state.isReady = true) :
    StateFits s state ↔ s.actor.managedDescriptor ≠ none := by
  cases state with
  | ready | degraded => exact Iff.rfl
  | stopped | validatingRuntime | starting | migrating | stopping | failed => exact nomatch h

/-- A call that waits again, for something else. -/
theorem Recalls.again {c c' : Call} {x : Option (ProcessID × BootID)}
    (hcall : calls id = some c) (hstart' : c'.starting = x) (hstart : c.starting = x)
    (hstop : c'.isStop = c.isStop) (hfits : c'.Fits a) : Recalls a (calls id) (some c') where
  fits d hd := Option.some.inj hd ▸ hfits
  keeps d y hd hy := by
    rw [hcall] at hd
    obtain rfl := Option.some.inj hd
    exact ⟨c', rfl, hstart'.trans (hstart.symm.trans hy)⟩
  adds d y hd hy := by
    obtain rfl := Option.some.inj hd
    exact ⟨c, hcall, hstart.trans (hstart'.symm.trans hy)⟩
  stops d hd hy := by
    rw [hcall] at hd
    obtain rfl := Option.some.inj hd
    exact ⟨c', rfl, hstop.trans hy⟩

/-- A call without a part in starting is over. -/
theorem Invariant.drop (hs : Invariant ⟨a, calls⟩) (hidle : a.state.isIdle = true) {c : Call}
    (hcall : calls id = some c) (hstart : c.starting = none) :
    Invariant ⟨a, Function.update calls id none⟩ where
  owned := hs.owned
  paired := hs.paired
  state := by
    have hstate : StateFits ⟨a, calls⟩ a.state := hs.state
    show StateFits ⟨a, Function.update calls id none⟩ a.state
    cases h : a.state with
    | stopped | failed => rw [h] at hstate; exact hstate
    | validatingRuntime | starting | migrating | ready | degraded | stopping =>
      rw [h] at hidle
      exact nomatch hidle
  pending child hchild hnone := by
    obtain ⟨i, c', bootID, hc', hstart'⟩ := hs.pending child hchild hnone
    replace hc' : calls i = some c' := hc'
    have hi : i ≠ id := by
      rintro rfl
      rw [hcall] at hc'
      rw [← Option.some.inj hc', hstart] at hstart'
      exact nomatch hstart'
    exact ⟨i, c', bootID, (Function.update_of_ne hi ..).trans hc', hstart'⟩
  calls i c' hc' := (call_update hc').elim nofun (hs.calls i c')
  fresh := hs.fresh
  positive := hs.positive

theorem invariant_resume (hs : Invariant ⟨a, calls⟩) (hcall : calls id = some call) {answer : Answer}
    (hharmless : call.Harmless a answer) :
    wp (resume call answer) (fun call' a' => Invariant ⟨a', Function.update calls id call'⟩)
      (fun _ a' => Invariant ⟨a', Function.update calls id none⟩) a := by
  have hfits := hs.calls id call hcall
  cases call with
  | fetching child bootID d =>
    simp only [resume]
    split
    · rename_i hnone
      rw [wp_tryCatch]
      unfold startReady
      rw [wp_bind]
      refine wp_transition (fun state hstate => ?_) fun e he => ?_
      · obtain ⟨hmigrating, rfl⟩ := reduce_localReady hstate
        rcases hmigrating with ⟨p, hp⟩ | hstarting
        · exact hs.ready hcall hp
        · have hfalse : StateFits ⟨a, calls⟩ (.starting d.bootID) := hstarting ▸ hs.state
          exact hfalse.elim
      · exact startFailed_spec hs (hharmless hnone ⟨e, he⟩) e
    · refine hs.recall (.again hcall rfl rfl rfl ⟨hfits.1, fun d' hd' => ?_⟩)
      exact Option.some.inj hd' ▸ hfits.2
  | sleeping child bootID validated =>
    unfold resume
    rw [wp_map, wp_tryCatch, wp_bind]
    cases herror : answer.error with
    | some e =>
      rw [wp_system_some]
      refine startFailed_spec hs (hharmless fun h => ?_) _
      rw [herror] at h
      exact nomatch h.1
    | none =>
      rw [wp_system_none]
      refine wp_mono (iterate_spec hfits.2) (fun next a' h => ?_) fun e a' h => ?_
      · obtain ⟨rfl, known, rfl, hknown⟩ := h
        exact hs.recall (.again hcall (starting_nextCall known) rfl
          (by cases known <;> rfl) (fits_nextCall hfits.1 hknown))
      · obtain ⟨rfl, hthrown, -⟩ := h
        exact startFailed_spec hs (hharmless fun h => hthrown h.2) e
  | adopting d =>
    unfold resume
    rw [wp_bind]
    cases herror : answer.error with
    | none =>
      rw [wp_system_none]
      unfold adopted
      rw [wp_bind, wp_modify, wp_pure]
      exact hs.adopted (hharmless herror)
    | some e =>
      refine hs.recall (.over fun c hc => ?_)
      rw [hcall] at hc
      exact Option.some.inj hc ▸ ⟨rfl, rfl⟩
  | verifying d =>
    simp only [resume]
    split
    · rename_i e herror
      rw [wp_bind, wp_modify, wp_pure]
      have hmanaged : a.managedDescriptor = none := hharmless.1 (by rw [herror]; exact nofun)
      have hfits : StateFits ⟨a, calls⟩
          (.failed "Refused to stop an unverified adopted Local process" 0) := hmanaged
      exact (hs.restate hfits).drop rfl hcall rfl
    · rename_i herror
      rw [wp_bind]
      refine wp_signalTerm none d fun a' hfewer hrunning => ?_
      have hagain : Recalls a (calls id) (some (.grace d)) := .again hcall rfl rfl rfl trivial
      have hstop := (hs.recall hagain).fewer hfewer
      refine awaitExit_spec hstop (fun hexpired => ?_) ?_
      · have hexpired' : a.Expired d answer.timedOut := by
          rwa [Supervisor.Expired, hrunning] at hexpired
        exact fun p hp => hharmless.2 herror hexpired' p (hfewer.live p hp)
      · exact fun i c hc => (hs.calls i c hc).mono (Nat.le_of_eq hfewer.boot.symm)
  | grace d =>
    unfold resume
    refine awaitExit_spec ?_ hharmless hs.calls
    rw [← hcall, Function.update_eq_self]
    exact hs
  | checking ready =>
    unfold resume
    rw [wp_bind, wp_modify, wp_pure]
    obtain ⟨state, hstate, hsame⟩ := checked_eq (a := a) answer.error
    rw [hstate]
    refine Invariant.recall (hs.restate ?_) (.over fun c hc => ?_)
    · rcases hsame with rfl | ⟨hready, hready'⟩
      · exact hs.state
      · exact (stateFits_of_isReady hready').mpr ((stateFits_of_isReady hready).mp hs.state)
    · rw [hcall] at hc
      exact Option.some.inj hc ▸ ⟨rfl, rfl⟩

/-! ## Histories -/

theorem invariant_enter (hs : Invariant s) {i : ℕ} {section' : Section (Option Call)}
    (h : s.calls i = none → wp section'
      (fun call a' => Invariant ⟨a', Function.update s.calls i call⟩)
      (fun _ a' => Invariant ⟨a', Function.update s.calls i none⟩) s.actor) :
    Invariant (s.enter i section') := by
  unfold System.enter
  split
  · exact perform_of_wp (h ‹_›)
  · exact hs

theorem invariant_after (hs : Invariant s) {event : Event} (h : Harmless s event) :
    Invariant (s.after event) := by
  cases event with
  | start i input => exact invariant_enter hs fun hi => invariant_start hs hi (h hi)
  | adoptRunningLocal i file => exact invariant_enter hs fun hi => invariant_adopt hs hi file
  | stop i timedOut => exact invariant_enter hs fun hi => invariant_stop hs hi timedOut
  | healthCheck i => exact invariant_enter hs fun hi => invariant_healthCheck hs hi
  | resume i answer =>
    unfold System.after
    dsimp only
    split
    · exact hs
    · rename_i call hcall
      exact perform_of_wp (invariant_resume hs hcall (h call hcall))
  | exit p => exact hs.fewer (.of_mark fun _ => live_exit)
  | appear => exact hs.fewer (.appear hs.fresh)

theorem invariant_run (hs : Invariant s) {history : List Event} (h : HarmlessThroughout s history) :
    Invariant (s.run history) := by
  induction history generalizing s with
  | nil => exact hs
  | cons event rest ih => exact ih (invariant_after hs h.1) h.2

theorem invariant_initial : Invariant System.initial where
  owned := ⟨nofun, nofun⟩
  paired := nofun
  state := rfl
  pending := nofun
  calls := nofun
  fresh _ _ := rfl
  positive := Nat.one_pos

/-! ## What the invariant says -/

/-- With no call in flight the state and the record agree. -/
theorem Invariant.quiet (hs : Invariant ⟨a, calls⟩) (hcalls : ∀ i, calls i = none) : Quiet a := by
  have hnone : ∀ P : Call → Prop, ¬ ∃ i c, calls i = some c ∧ P c := by
    rintro P ⟨i, c, hc, -⟩
    rw [hcalls i] at hc
    exact nomatch hc
  have hstate : StateFits ⟨a, calls⟩ a.state := hs.state
  have hprocess : a.managedDescriptor = none → a.process = none := by
    intro hmanaged
    cases h : a.process with
    | none => rfl
    | some child =>
      obtain ⟨i, c, bootID, hc, hstart⟩ := hs.pending child h hmanaged
      exact (hnone (fun c => c.starting = some (child, bootID)) ⟨i, c, hc, hstart⟩).elim
  have hcleared : a.managedDescriptor = none → Cleared a := fun h => hs.cleared (hprocess h) h
  have hready : a.managedDescriptor ≠ none → a.state.isReady = true := by
    intro hmanaged
    cases h : a.state with
    | ready | degraded => rfl
    | stopping => rw [h] at hstate; exact absurd hstate.2 (hnone _)
    | migrating => rw [h] at hstate; exact absurd hstate.1 hmanaged
    | stopped => rw [h] at hstate; exact absurd hstate hmanaged
    | failed => rw [h] at hstate; exact absurd hstate hmanaged
    | validatingRuntime => rw [h] at hstate; exact hstate.elim
    | starting => rw [h] at hstate; exact hstate.elim
  refine ⟨⟨fun h => (stateFits_of_isReady h).mp hstate, hready⟩,
    fun h => ⟨(hcleared h).state, hprocess h⟩, fun hidle input e a' hrun => ?_⟩
  have hmanaged : a.managedDescriptor = none := by
    by_contra hsome
    have hboth := hready hsome
    cases h : a.state with
    | stopped | failed => rw [h] at hboth; exact nomatch hboth
    | validatingRuntime | starting | migrating | ready | degraded | stopping =>
      rw [h] at hidle
      exact nomatch hidle
  exact ((wp_of_error hrun).mp (start_spec (hcleared hmanaged) input)).1

/-- In every history whose events meet the condition the supervisor owns its process, and
is ready, stopped or failed when no call is in flight. -/
theorem supervisor_owns (history : List Event) (h : HarmlessThroughout .initial history) :
    Owned (System.initial.run history).actor ∧
      ((∀ i, (System.initial.run history).calls i = none) →
        Quiet (System.initial.run history).actor) := by
  have hs : Invariant (System.initial.run history) := invariant_run invariant_initial h
  exact ⟨hs.owned, fun hcalls => Invariant.quiet hs hcalls⟩

/-- Nothing goes wrong on the way to the child, and no descriptor is there yet. -/
def plainStart : StartInput := ⟨.ok none, none, none, none, none, ⟨false, .ok none⟩⟩

/-- Nothing throws, and the descriptor file has this to say. -/
def plainAnswer (file : Option LocalRunDescriptor) : Answer := ⟨none, ⟨false, .ok file⟩, false, none⟩

/-- A start that becomes ready, and a stop that waits for the process to end. -/
def plainHistory : List Event :=
  [.start 0 plainStart, .resume 0 (plainAnswer (some ⟨1, 0, 8080⟩)), .resume 0 (plainAnswer none),
    .stop 1 false, .exit 1, .resume 1 (plainAnswer none)]

theorem supervisor_owns_stopped :
    (System.initial.run plainHistory).actor.state = .stopped ∧
      Owned (System.initial.run plainHistory).actor := by
  refine ⟨rfl, (supervisor_owns plainHistory ?_).1⟩
  refine ⟨fun _ _ => ⟨rfl, rfl, rfl, rfl⟩, ?_, ?_, trivial, trivial, ?_, trivial⟩
  · intro call hcall
    obtain rfl := Option.some.inj hcall
    exact fun h => absurd ⟨rfl, rfl, rfl, fun _ => ⟨rfl, rfl⟩⟩ h
  · intro call hcall
    obtain rfl := Option.some.inj hcall
    rintro - ⟨e, he⟩
    exact nomatch he
  · intro call hcall
    obtain rfl := Option.some.inj hcall
    intro _ p hp
    match p, hp with
    | 1, _ => rfl
    | 0, hp => exact nomatch hp
    | _ + 2, hp => exact nomatch hp

/-- A start is stopped and another one begins; when the first finds its child gone it
clears the record, and the child of the second runs on without being on record. -/
theorem forgotten_child : ¬ Owned (System.initial.run
    [.start 0 plainStart, .stop 1 false, .start 2 plainStart, .exit 1,
      .resume 0 (plainAnswer none)]).actor := by
  intro h
  rcases h.recorded 2 rfl with hprocess | ⟨d, hd, -⟩
  · exact nomatch hprocess
  · exact nomatch hd

end AI2Apps.LocalSupervisor
