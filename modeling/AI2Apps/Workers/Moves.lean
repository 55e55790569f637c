import AI2Apps.Workers.Scheduler
import Mathlib.Logic.Relation

/-!
# Moves of the scheduler

Whatever an operation of the scheduler does, it does in moves: a ticket enters the queue,
leaves it, starts or stops, a call of `acquire` goes on, or the host changes what tickets
wait for.  The invariants are about moves; this file says which moves an event makes.

* `Move`, `Steps`: one move, and any number of them.
* `dispatchLocked_steps`: dispatch is made of moves.
* `after_steps`: an event is made of moves, or a call loses the lease it was given.
-/

namespace AI2Apps.Workers

/-- The ways in which a ticket ends. -/
def QueueTicketStatus.final : QueueTicketStatus → Bool
  | .queued | .running => false
  | _ => true

namespace WorkerJobScheduler

variable {config : SchedulerConfig} {limit : Str → ℕ} {s s' : WorkerJobScheduler} {n m : ℕ}
  {t : QueueTicket} {status : QueueTicketStatus} {caller : Caller} {now : ℚ}

/-! ## Fields -/

section Fields

variable (s n t status caller)

@[simp] theorem count_queued : (s.count status).queued = s.queued := by cases status <;> rfl

@[simp] theorem count_active : (s.count status).active = s.active := by cases status <;> rfl

@[simp] theorem count_callers : (s.count status).callers = s.callers := by cases status <;> rfl

@[simp] theorem count_workerSlots : (s.count status).workerSlots = s.workerSlots := by
  cases status <;> rfl

@[simp] theorem count_sequence : (s.count status).sequence = s.sequence := by cases status <;> rfl

@[simp] theorem count_gates :
    (s.count status).backgroundGateReasons = s.backgroundGateReasons := by
  cases status <;> rfl

@[simp] theorem count_resourceManager :
    (s.count status).resourceManager = s.resourceManager := by
  cases status <;> rfl

@[simp] theorem settleWaiter_queued : (s.settleWaiter n caller).queued = s.queued := by
  unfold settleWaiter
  split_ifs <;> rfl

@[simp] theorem settleWaiter_active : (s.settleWaiter n caller).active = s.active := by
  unfold settleWaiter
  split_ifs <;> rfl

@[simp] theorem settleWaiter_workerSlots :
    (s.settleWaiter n caller).workerSlots = s.workerSlots := by
  unfold settleWaiter
  split_ifs <;> rfl

@[simp] theorem settleWaiter_sequence : (s.settleWaiter n caller).sequence = s.sequence := by
  unfold settleWaiter
  split_ifs <;> rfl

@[simp] theorem settleWaiter_gates :
    (s.settleWaiter n caller).backgroundGateReasons = s.backgroundGateReasons := by
  unfold settleWaiter
  split_ifs <;> rfl

@[simp] theorem settleWaiter_resourceManager :
    (s.settleWaiter n caller).resourceManager = s.resourceManager := by
  unfold settleWaiter
  split_ifs <;> rfl

theorem settleWaiter_callers :
    (s.settleWaiter n caller).callers =
      Function.update s.callers n (if s.callers n = .waiting then caller else s.callers n) := by
  unfold settleWaiter
  split_ifs
  · rfl
  · exact (Function.update_eq_self n s.callers).symm

/-- The tickets that ended in one of the four ways. -/
def ended : ℕ := s.completed + s.failed + s.cancelled + s.expired

@[simp] theorem settleWaiter_ended : (s.settleWaiter n caller).ended = s.ended := by
  unfold settleWaiter
  split_ifs <;> rfl

@[simp] theorem dropTicket_queued :
    (s.dropTicket n status caller).queued = without n s.queued := by
  rw [dropTicket, settleWaiter_queued, count_queued]

@[simp] theorem dropTicket_active : (s.dropTicket n status caller).active = s.active := by
  rw [dropTicket, settleWaiter_active, count_active]

@[simp] theorem dropTicket_sequence : (s.dropTicket n status caller).sequence = s.sequence := by
  rw [dropTicket, settleWaiter_sequence, count_sequence]

@[simp] theorem dropTicket_workerSlots :
    (s.dropTicket n status caller).workerSlots = s.workerSlots := by
  rw [dropTicket, settleWaiter_workerSlots, count_workerSlots]

@[simp] theorem dropTicket_gates :
    (s.dropTicket n status caller).backgroundGateReasons = s.backgroundGateReasons := by
  rw [dropTicket, settleWaiter_gates, count_gates]

@[simp] theorem dropTicket_resourceManager :
    (s.dropTicket n status caller).resourceManager = s.resourceManager := by
  rw [dropTicket, settleWaiter_resourceManager, count_resourceManager]

theorem dropTicket_callers :
    (s.dropTicket n status caller).callers =
      Function.update s.callers n (if s.callers n = .waiting then caller else s.callers n) := by
  rw [dropTicket, settleWaiter_callers, count_callers]

@[simp] theorem start_queued : (s.start t).queued = without t.sequence s.queued :=
  settleWaiter_queued ..

@[simp] theorem start_active : (s.start t).active = s.active ++ [t] := settleWaiter_active ..

@[simp] theorem start_sequence : (s.start t).sequence = s.sequence := settleWaiter_sequence ..

@[simp] theorem start_workerSlots : (s.start t).workerSlots = s.workerSlots :=
  settleWaiter_workerSlots ..

@[simp] theorem start_resourceManager : (s.start t).resourceManager = s.resourceManager :=
  settleWaiter_resourceManager ..

@[simp] theorem start_ended : (s.start t).ended = s.ended := settleWaiter_ended ..

theorem start_callers :
    (s.start t).callers = Function.update s.callers t.sequence
      (if s.callers t.sequence = .waiting then .granted else s.callers t.sequence) :=
  settleWaiter_callers ..

@[simp] theorem stop_queued : (s.stop n status).queued = s.queued := count_queued ..

@[simp] theorem stop_active : (s.stop n status).active = without n s.active := count_active ..

@[simp] theorem stop_sequence : (s.stop n status).sequence = s.sequence := count_sequence ..

@[simp] theorem stop_callers : (s.stop n status).callers = s.callers := count_callers ..

@[simp] theorem stop_workerSlots : (s.stop n status).workerSlots = s.workerSlots :=
  count_workerSlots ..

@[simp] theorem stop_gates :
    (s.stop n status).backgroundGateReasons = s.backgroundGateReasons :=
  count_gates ..

@[simp] theorem stop_resourceManager :
    (s.stop n status).resourceManager =
      s.resourceManager.map (WorkerResourceManager.release · n) :=
  count_resourceManager ..

end Fields

theorem count_ended (h : status.final = true) : (s.count status).ended = s.ended + 1 := by
  cases status with
  | queued => cases h
  | running => cases h
  | succeeded => simp only [count, ended]; omega
  | failed => simp only [count, ended]; omega
  | cancelled => simp only [count, ended]; omega
  | expired => simp only [count, ended]; omega

theorem isQueued_iff : s.isQueued n = true ↔ ∃ t ∈ s.queued, t.sequence = n := by
  simp only [isQueued, List.any_eq_true, decide_eq_true_eq]

theorem isActive_iff : s.isActive n = true ↔ ∃ t ∈ s.active, t.sequence = n := by
  simp only [isActive, List.any_eq_true, decide_eq_true_eq]

theorem mem_without {l : List QueueTicket} : t ∈ without n l ↔ t ∈ l ∧ t.sequence ≠ n := by
  simp only [without, List.mem_filter, decide_eq_true_eq]

/-! ## Moves -/

/-- One change of the state, under the limits that the services had. -/
inductive Move (config : SchedulerConfig) (limit : Str → ℕ) (s : WorkerJobScheduler) :
    WorkerJobScheduler → Prop
  | enqueue (t : QueueTicket) (number : t.sequence = s.sequence + 1)
      (depth : s.queued.length < config.maxQueueDepth)
      (actor : ∀ a, t.actorId = some a →
        s.queued.countP (fun t => t.actorId = some a) < config.maxQueuedPerActor)
      (app : ∀ a, t.appId = some a →
        s.queued.countP (fun t => t.appId = some a) < config.maxQueuedPerApp) :
      Move config limit s (s.enqueue t)
  | drop (n : ℕ) (status : QueueTicketStatus) (caller : Caller) (queued : s.isQueued n = true)
      (final : status.final = true) (waiter : caller = .expired ∨ caller = .cancelled) :
      Move config limit s (s.dropTicket n status caller)
  | start (t : QueueTicket) (manager : Option WorkerResourceManager) (queued : t ∈ s.queued)
      (slot : s.active.length < config.maxHeavyComputeSlots)
      (runnable : s.runnable config t = true)
      (reserved : tryReserve s.resourceManager t = (manager, true)) :
      Move config limit s ({ s with resourceManager := manager }.start t)
  | refuse (t : QueueTicket) (manager : Option WorkerResourceManager) (queued : t ∈ s.queued)
      (refused : tryReserve s.resourceManager t = (manager, false)) :
      Move config limit s { s with resourceManager := manager }
  | stop (n : ℕ) (status : QueueTicketStatus) (active : s.isActive n = true)
      (final : status.final = true) (caller : s.callers n ≠ .finished) :
      Move config limit s ((s.setCaller n .finished).stop n status)
  | timer (n : ℕ) (awaits : (s.callers n).awaits = true) :
      Move config limit s (s.setCaller n .timedOut)
  | interrupt (n : ℕ) (awaits : (s.callers n).awaits = true ∨ s.callers n = .timedOut) :
      Move config limit s (s.setCaller n .interrupted)
  | hold (n : ℕ) (granted : s.callers n = .granted) : Move config limit s (s.setCaller n .holding)
  | finish (n : ℕ) (queued : s.isQueued n = false) (active : s.isActive n = false) :
      Move config limit s (s.setCaller n .finished)
  | gate (reasons : Finset Str) : Move config limit s { s with backgroundGateReasons := reasons }
  | slots (serviceKey : Str) (slots : ℕ) (le : slots ≤ limit serviceKey) :
      Move config limit s { s with
        workerSlots := Function.update s.workerSlots serviceKey (some slots) }
  | shutdown : Move config limit s s.shutdown
  | manage (m m' : WorkerResourceManager) (manager : s.resourceManager = some m)
      (untouched : m.Untouched m') (solvent : m.Solvent → m'.Solvent) :
      Move config limit s { s with resourceManager := some m' }
  | dispatch : Move config limit s { s with dispatchedFrom := samples s.resourceManager }

/-- Any number of moves. -/
abbrev Steps (config : SchedulerConfig) (limit : Str → ℕ) :
    WorkerJobScheduler → WorkerJobScheduler → Prop :=
  Relation.ReflTransGen (Move config limit)

/-! ## Distinct numbers -/

/-- No two tickets have one number, and the next number is free. -/
structure Distinct (s : WorkerJobScheduler) : Prop where
  queued : (s.queued.map QueueTicket.sequence).Nodup
  active : (s.active.map QueueTicket.sequence).Nodup
  disjoint : ∀ t ∈ s.queued, ∀ u ∈ s.active, t.sequence ≠ u.sequence
  le_queued : ∀ t ∈ s.queued, t.sequence ≤ s.sequence
  le_active : ∀ t ∈ s.active, t.sequence ≤ s.sequence

theorem distinct_initial (resourceManager : Option WorkerResourceManager) :
    (initial resourceManager).Distinct := by
  constructor <;> simp [initial]

theorem nodup_without {l : List QueueTicket} (h : (l.map QueueTicket.sequence).Nodup) (n : ℕ) :
    ((without n l).map QueueTicket.sequence).Nodup :=
  h.sublist (List.filter_sublist.map _)

/-- Fewer tickets. -/
theorem Distinct.mono (h : s.Distinct) (hqueued : s'.queued.Sublist s.queued)
    (hactive : s'.active.Sublist s.active) (hsequence : s'.sequence = s.sequence) :
    s'.Distinct where
  queued := h.queued.sublist (hqueued.map _)
  active := h.active.sublist (hactive.map _)
  disjoint t ht u hu := h.disjoint t (hqueued.subset ht) u (hactive.subset hu)
  le_queued t ht := (h.le_queued t (hqueued.subset ht)).trans hsequence.ge
  le_active t ht := (h.le_active t (hactive.subset ht)).trans hsequence.ge

theorem Distinct.enqueue (h : s.Distinct) (ht : t.sequence = s.sequence + 1) :
    (s.enqueue t).Distinct where
  queued := by
    show ((s.queued ++ [t]).map QueueTicket.sequence).Nodup
    rw [List.map_append, List.nodup_append]
    refine ⟨h.queued, List.nodup_singleton _, fun a ha b hb => ?_⟩
    obtain ⟨u, hu, rfl⟩ := List.mem_map.mp ha
    obtain rfl := List.mem_singleton.mp hb
    have := h.le_queued u hu
    omega
  active := h.active
  disjoint u hu v hv := by
    have hle := h.le_active v hv
    rcases List.mem_append.mp hu with hu | hu
    · exact h.disjoint u hu v hv
    · obtain rfl := List.mem_singleton.mp hu
      omega
  le_queued u hu := by
    show u.sequence ≤ s.sequence + 1
    rcases List.mem_append.mp hu with hu | hu
    · exact (h.le_queued u hu).trans (Nat.le_succ _)
    · obtain rfl := List.mem_singleton.mp hu
      exact ht.le
  le_active u hu := (h.le_active u hu).trans (Nat.le_succ _)

theorem Distinct.start (h : s.Distinct) (ht : t ∈ s.queued) : (s.start t).Distinct := by
  refine ⟨?_, ?_, ?_, ?_, ?_⟩
  · rw [start_queued]
    exact nodup_without h.queued _
  · rw [start_active, List.map_append, List.nodup_append]
    refine ⟨h.active, List.nodup_singleton _, fun a ha b hb => ?_⟩
    obtain ⟨u, hu, rfl⟩ := List.mem_map.mp ha
    obtain rfl := List.mem_singleton.mp hb
    exact (h.disjoint t ht u hu).symm
  · rw [start_queued, start_active]
    intro u hu v hv
    obtain ⟨hu, hne⟩ := mem_without.mp hu
    rcases List.mem_append.mp hv with hv | hv
    · exact h.disjoint u hu v hv
    · obtain rfl := List.mem_singleton.mp hv
      exact hne
  · rw [start_queued, start_sequence]
    exact fun u hu => h.le_queued u (mem_without.mp hu).1
  · rw [start_active, start_sequence]
    intro u hu
    rcases List.mem_append.mp hu with hu | hu
    · exact h.le_active u hu
    · obtain rfl := List.mem_singleton.mp hu
      exact h.le_queued u ht

theorem Move.distinct (h : Move config limit s s') (hs : s.Distinct) : s'.Distinct := by
  cases h with
  | enqueue t number => exact hs.enqueue number
  | drop n status caller =>
    refine hs.mono ?_ ?_ (dropTicket_sequence ..)
    · rw [dropTicket_queued]
      exact List.filter_sublist
    · rw [dropTicket_active]
  | start t manager queued =>
    have hmanager : { s with resourceManager := manager }.Distinct :=
      hs.mono (.refl _) (.refl _) rfl
    exact hmanager.start queued
  | stop n status =>
    refine hs.mono ?_ ?_ (stop_sequence ..)
    · rw [stop_queued]
      exact List.Sublist.refl _
    · rw [stop_active]
      exact List.filter_sublist
  | shutdown => exact hs.mono (List.nil_sublist _) (.refl _) rfl
  | refuse | timer | interrupt | hold | finish | gate | slots | manage | dispatch =>
    exact hs.mono (.refl _) (.refl _) rfl

theorem Steps.distinct (h : Steps config limit s s') (hs : s.Distinct) : s'.Distinct := by
  induction h with
  | refl => exact hs
  | tail _ hmove ih => exact hmove.distinct ih

/-! ## The calls of `acquire` -/

/-- The call of a queued ticket has not got it, a lease is for an active ticket, and a
future that failed is not. -/
structure Calls (s : WorkerJobScheduler) : Prop where
  queued : ∀ t ∈ s.queued, s.callers t.sequence = .waiting ∨ s.callers t.sequence = .timedOut ∨
    s.callers t.sequence = .interrupted
  waiting : ∀ n, s.callers n = .waiting → s.isQueued n = true
  lease : ∀ n, s.callers n = .granted ∨ s.callers n = .holding → s.isActive n = true
  failed : ∀ n, s.callers n = .absent ∨ s.callers n = .expired ∨ s.callers n = .cancelled →
    s.isActive n = false

theorem calls_initial (resourceManager : Option WorkerResourceManager) :
    (initial resourceManager).Calls where
  queued _ h := absurd h (List.not_mem_nil)
  waiting _ h := by cases h
  lease _ h := by rcases h with h | h <;> cases h
  failed _ _ := rfl

theorem isActive_eq_of (hactive : ∀ t, t.sequence ≠ n → (t ∈ s'.active ↔ t ∈ s.active))
    (hm : m ≠ n) : s'.isActive m = s.isActive m := by
  rw [Bool.eq_iff_iff, isActive_iff, isActive_iff]
  constructor
  · rintro ⟨t, ht, rfl⟩
    exact ⟨t, (hactive t hm).mp ht, rfl⟩
  · rintro ⟨t, ht, rfl⟩
    exact ⟨t, (hactive t hm).mpr ht, rfl⟩

/-- Only one call goes on, and only its ticket moves. -/
theorem Calls.move (h : s.Calls) (hcallers : ∀ m, m ≠ n → s'.callers m = s.callers m)
    (hqueued : ∀ m, m ≠ n → s'.isQueued m = s.isQueued m)
    (hactive : ∀ m, m ≠ n → s'.isActive m = s.isActive m)
    (hn : s'.isQueued n = true → s'.callers n = .waiting ∨ s'.callers n = .timedOut ∨
      s'.callers n = .interrupted)
    (hwaiting : s'.callers n = .waiting → s'.isQueued n = true)
    (hlease : s'.callers n = .granted ∨ s'.callers n = .holding → s'.isActive n = true)
    (hfailed : s'.callers n = .absent ∨ s'.callers n = .expired ∨ s'.callers n = .cancelled →
      s'.isActive n = false) :
    s'.Calls where
  queued t ht := by
    have hmem : s'.isQueued t.sequence = true := isQueued_iff.mpr ⟨t, ht, rfl⟩
    by_cases heq : t.sequence = n
    · rw [heq] at hmem ⊢
      exact hn hmem
    · rw [hcallers _ heq]
      rw [hqueued _ heq] at hmem
      obtain ⟨u, hu, hsequence⟩ := isQueued_iff.mp hmem
      rw [← hsequence]
      exact h.queued u hu
  waiting m hm := by
    by_cases heq : m = n
    · rw [heq] at hm ⊢
      exact hwaiting hm
    · rw [hcallers _ heq] at hm
      rw [hqueued _ heq]
      exact h.waiting m hm
  lease m hm := by
    by_cases heq : m = n
    · rw [heq] at hm ⊢
      exact hlease hm
    · rw [hcallers _ heq] at hm
      exact (hactive m heq).trans (h.lease m hm)
  failed m hm := by
    by_cases heq : m = n
    · rw [heq] at hm ⊢
      exact hfailed hm
    · rw [hcallers _ heq] at hm
      exact (hactive m heq).trans (h.failed m hm)

theorem Calls.setCaller (h : s.Calls)
    (hn : s.isQueued n = true → caller = .waiting ∨ caller = .timedOut ∨ caller = .interrupted)
    (hwaiting : caller ≠ .waiting)
    (hlease : caller = .granted ∨ caller = .holding → s.isActive n = true)
    (hfailed : caller ≠ .absent ∧ caller ≠ .expired ∧ caller ≠ .cancelled) :
    (s.setCaller n caller).Calls := by
  have hcaller : (s.setCaller n caller).callers n = caller := Function.update_self ..
  refine h.move (n := n) (fun m hm => Function.update_of_ne hm _ _) (fun _ _ => rfl)
    (fun _ _ => rfl) ?_ ?_ ?_ ?_
  · rw [hcaller]
    exact hn
  · rw [hcaller]
    exact fun heq => absurd heq hwaiting
  · rw [hcaller]
    exact hlease
  · rw [hcaller]
    rintro (heq | heq | heq)
    · exact absurd heq hfailed.1
    · exact absurd heq hfailed.2.1
    · exact absurd heq hfailed.2.2

theorem isQueued_without_self {l : List QueueTicket} (h : s.queued = without n l) :
    s.isQueued n = false := by
  rw [← Bool.not_eq_true, isQueued_iff, h]
  rintro ⟨t, ht, hsequence⟩
  exact (mem_without.mp ht).2 hsequence

theorem isQueued_without_of_ne (h : s'.queued = without n s.queued) (hm : m ≠ n) :
    s'.isQueued m = s.isQueued m := by
  rw [Bool.eq_iff_iff, isQueued_iff, isQueued_iff, h]
  constructor
  · rintro ⟨t, ht, hsequence⟩
    exact ⟨t, (mem_without.mp ht).1, hsequence⟩
  · rintro ⟨t, ht, hsequence⟩
    exact ⟨t, mem_without.mpr ⟨ht, hsequence.trans_ne hm⟩, hsequence⟩

theorem Distinct.not_isActive (h : s.Distinct) (hn : s.isQueued n = true) :
    s.isActive n = false := by
  obtain ⟨t, ht, rfl⟩ := isQueued_iff.mp hn
  rw [← Bool.not_eq_true, isActive_iff]
  rintro ⟨u, hu, hsequence⟩
  exact h.disjoint t ht u hu hsequence.symm

theorem Distinct.not_isQueued (h : s.Distinct) (hn : s.isActive n = true) :
    s.isQueued n = false := by
  rw [← Bool.not_eq_true]
  intro hqueued
  rw [h.not_isActive hqueued] at hn
  cases hn

theorem Move.calls (h : Move config limit s s') (hd : s.Distinct) (hs : s.Calls) : s'.Calls := by
  cases h with
  | enqueue t number =>
    have hqueued : (s.enqueue t).isQueued t.sequence = true :=
      isQueued_iff.mpr ⟨t, List.mem_append_right _ (List.mem_singleton_self t), rfl⟩
    have hcaller : (s.enqueue t).callers t.sequence = .waiting := Function.update_self ..
    refine hs.move (n := t.sequence) (fun m hm => Function.update_of_ne hm _ _) (fun m hm => ?_)
      (fun _ _ => rfl) (fun _ => .inl hcaller) (fun _ => hqueued) (fun hlease => ?_) fun hfailed => ?_
    · rw [Bool.eq_iff_iff, isQueued_iff, isQueued_iff]
      constructor
      · rintro ⟨u, hu, rfl⟩
        rcases List.mem_append.mp hu with hu | hu
        · exact ⟨u, hu, rfl⟩
        · exact absurd (congrArg QueueTicket.sequence (List.mem_singleton.mp hu)) hm
      · rintro ⟨u, hu, rfl⟩
        exact ⟨u, List.mem_append_left _ hu, rfl⟩
    · rw [hcaller] at hlease
      rcases hlease with hlease | hlease <;> cases hlease
    · rw [hcaller] at hfailed
      rcases hfailed with hfailed | hfailed | hfailed <;> cases hfailed
  | drop n status caller queued final waiter =>
    have hgone : (s.dropTicket n status caller).isQueued n = false :=
      isQueued_without_self (dropTicket_queued ..)
    have hself : (s.dropTicket n status caller).callers n =
        if s.callers n = .waiting then caller else s.callers n := by
      rw [dropTicket_callers, Function.update_self]
    have hactive : (s.dropTicket n status caller).isActive = s.isActive := by
      funext m
      rw [isActive, dropTicket_active]
      rfl
    obtain ⟨t, ht, rfl⟩ := isQueued_iff.mp queued
    refine hs.move (n := t.sequence) (fun m hm => ?_)
      (fun m hm => isQueued_without_of_ne (dropTicket_queued ..) hm)
      (fun m _ => congrFun hactive m) ?_ ?_ ?_ fun _ => ?_
    · rw [dropTicket_callers, Function.update_of_ne hm]
    · rw [hgone]
      intro hfalse
      cases hfalse
    · rw [hself]
      intro hwaiting
      split_ifs at hwaiting with hcaller
      · rcases waiter with rfl | rfl <;> cases hwaiting
      · exact absurd hwaiting hcaller
    · rw [hself]
      intro hlease
      rcases hs.queued t ht with hcaller | hcaller | hcaller
      · rw [if_pos hcaller] at hlease
        rcases waiter with rfl | rfl <;> rcases hlease with hlease | hlease <;> cases hlease
      · rw [hcaller] at hlease
        rcases hlease with hlease | hlease <;> cases hlease
      · rw [hcaller] at hlease
        rcases hlease with hlease | hlease <;> cases hlease
    · rw [hactive]
      exact hd.not_isActive queued
  | start t manager queued =>
    have hactive : ({ s with resourceManager := manager }.start t).isActive t.sequence = true := by
      rw [isActive_iff, start_active]
      exact ⟨t, List.mem_append_right _ (List.mem_singleton_self t), rfl⟩
    have hgone : ({ s with resourceManager := manager }.start t).isQueued t.sequence = false :=
      isQueued_without_self (start_queued ..)
    refine hs.move (n := t.sequence) (fun m hm => ?_)
      (fun m hm => isQueued_without_of_ne (start_queued ..) hm)
      (fun m hm => isActive_eq_of (fun u hu => ?_) hm) ?_ ?_ (fun _ => hactive) fun hfailed => ?_
    · rw [start_callers, Function.update_of_ne hm]
    · rw [start_active, List.mem_append, List.mem_singleton]
      exact or_iff_left fun heq => hu (congrArg QueueTicket.sequence heq)
    · rw [hgone]
      intro hfalse
      cases hfalse
    · rw [start_callers, Function.update_self]
      intro hwaiting
      split_ifs at hwaiting with hcaller
      exact absurd hwaiting hcaller
    · rw [start_callers, Function.update_self] at hfailed
      rcases hs.queued t queued with hcaller | hcaller | hcaller
      · rw [if_pos hcaller] at hfailed
        rcases hfailed with hfailed | hfailed | hfailed <;> cases hfailed
      · rw [hcaller] at hfailed
        rcases hfailed with hfailed | hfailed | hfailed <;> cases hfailed
      · rw [hcaller] at hfailed
        rcases hfailed with hfailed | hfailed | hfailed <;> cases hfailed
  | stop n status active =>
    refine hs.move (n := n) (fun m hm => ?_) (fun m hm => ?_)
      (fun m hm => isActive_eq_of (fun u hu => ?_) hm) ?_ ?_ ?_ ?_
    · rw [stop_callers]
      exact Function.update_of_ne hm _ _
    · rw [isQueued, stop_queued]
      rfl
    · rw [stop_active, mem_without]
      exact and_iff_left hu
    · rw [isQueued, stop_queued]
      intro hqueued
      have hnot := hd.not_isQueued active
      rw [show s.isQueued n = true from hqueued] at hnot
      cases hnot
    · rw [stop_callers]
      intro hwaiting
      cases (Function.update_self ..).symm.trans hwaiting
    · rw [stop_callers]
      rintro (hlease | hlease) <;> cases (Function.update_self ..).symm.trans hlease
    · rw [stop_callers]
      rintro (hfailed | hfailed | hfailed) <;> cases (Function.update_self ..).symm.trans hfailed
  | timer n => exact hs.setCaller (fun _ => .inr (.inl rfl)) (by decide) (by simp) (by decide)
  | interrupt n => exact hs.setCaller (fun _ => .inr (.inr rfl)) (by decide) (by simp) (by decide)
  | hold n granted =>
    have hactive := hs.lease n (.inl granted)
    refine hs.setCaller (fun hqueued => ?_) (by decide) (fun _ => hactive) (by decide)
    rw [hd.not_isActive hqueued] at hactive
    cases hactive
  | finish n queued =>
    refine hs.setCaller (fun hqueued => ?_) (by decide) (by simp) (by decide)
    rw [queued] at hqueued
    cases hqueued
  | shutdown =>
    refine ⟨fun t ht => absurd ht (List.not_mem_nil), fun n hn => ?_, fun n hn => ?_,
      fun n hn => ?_⟩
    · have hcaller : (if s.isQueued n && s.callers n = .waiting then Caller.cancelled
          else s.callers n) = .waiting := hn
      split_ifs at hcaller with hwaiting
      rw [hs.waiting n hcaller, hcaller] at hwaiting
      exact absurd rfl hwaiting
    · have hcaller : (if s.isQueued n && s.callers n = .waiting then Caller.cancelled
          else s.callers n) = .granted ∨ (if s.isQueued n && s.callers n = .waiting
          then Caller.cancelled else s.callers n) = .holding := hn
      split_ifs at hcaller with hwaiting
      · rcases hcaller with hcaller | hcaller <;> cases hcaller
      · exact hs.lease n hcaller
    · by_cases hwaiting : (s.isQueued n && s.callers n = .waiting) = true
      · rw [Bool.and_eq_true] at hwaiting
        exact hd.not_isActive hwaiting.1
      · have hcaller : s.shutdown.callers n = s.callers n := if_neg hwaiting
        rw [hcaller] at hn
        exact hs.failed n hn
  | refuse | gate | slots | manage | dispatch => exact ⟨hs.queued, hs.waiting, hs.lease, hs.failed⟩

theorem Steps.calls (h : Steps config limit s s') (hd : s.Distinct) (hs : s.Calls) : s'.Calls := by
  induction h with
  | refl => exact hs
  | tail hsteps hmove ih => exact hmove.calls (Steps.distinct hsteps hd) ih

/-! ## Dropping tickets -/

theorem isQueued_dropTicket_of_ne (h : s.isQueued m = true) (hne : m ≠ n) :
    (s.dropTicket n status caller).isQueued m = true := by
  obtain ⟨t, ht, rfl⟩ := isQueued_iff.mp h
  refine isQueued_iff.mpr ⟨t, ?_, rfl⟩
  rw [dropTicket_queued]
  exact mem_without.mpr ⟨ht, hne⟩

/-- Some tickets of the queue are dropped, one after the other. -/
theorem foldl_drop_steps (status : QueueTicketStatus) (caller : Caller)
    (hfinal : status.final = true) (hcaller : caller = .expired ∨ caller = .cancelled)
    {drop : WorkerJobScheduler → QueueTicket → WorkerJobScheduler}
    (hdrop : ∀ s t, drop s t = s ∨ drop s t = s.dropTicket t.sequence status caller)
    {l : List QueueTicket} (hl : (l.map QueueTicket.sequence).Nodup)
    (hqueued : ∀ t ∈ l, s.isQueued t.sequence = true) :
    Steps config limit s (l.foldl drop s) := by
  induction l generalizing s with
  | nil => exact .refl
  | cons t l ih =>
    rw [List.map_cons, List.nodup_cons] at hl
    rw [List.forall_mem_cons] at hqueued
    rw [List.foldl_cons]
    rcases hdrop s t with h | h
    · rw [h]
      exact ih hl.2 hqueued.2
    · rw [h]
      refine .head (.drop t.sequence status caller hqueued.1 hfinal hcaller) (ih hl.2 ?_)
      intro u hu
      refine isQueued_dropTicket_of_ne (hqueued.2 u hu) fun heq => hl.1 ?_
      rw [← heq]
      exact List.mem_map_of_mem hu

theorem expireLocked_steps (h : s.Distinct) (now : ℚ) :
    Steps config limit s (s.expireLocked now) := by
  refine foldl_drop_steps .expired .expired rfl (.inl rfl)
    (fun s t => ?_) h.queued fun t ht => isQueued_iff.mpr ⟨t, ht, rfl⟩
  unfold expireTicketOf
  split_ifs
  · exact .inr rfl
  · exact .inl rfl

/-! ## Dispatch -/

/-- Candidates that are refused one after the other. -/
inductive Refusals : Option WorkerResourceManager → List QueueTicket →
    Option WorkerResourceManager → Prop
  | nil (r : Option WorkerResourceManager) : Refusals r [] r
  | cons {r r' r'' : Option WorkerResourceManager} {t : QueueTicket} {ts : List QueueTicket}
      (refused : tryReserve r t = (r', false)) (rest : Refusals r' ts r'') :
      Refusals r (t :: ts) r''

/-- **The first candidate with a reservation comes after refused ones.** -/
theorem firstReserved_cases (r : Option WorkerResourceManager) (ts : List QueueTicket) :
    (∃ r', firstReserved r ts = (r', none) ∧ Refusals r ts r') ∨
    ∃ r' r'' pre t post, firstReserved r ts = (r'', some t) ∧ ts = pre ++ t :: post ∧
      Refusals r pre r' ∧ tryReserve r' t = (r'', true) := by
  induction ts generalizing r with
  | nil => exact .inl ⟨r, rfl, .nil r⟩
  | cons t ts ih =>
    rcases htry : tryReserve r t with ⟨r₁, reserved⟩
    unfold firstReserved
    rw [htry]
    cases reserved with
    | true => exact .inr ⟨r, r₁, [], t, ts, rfl, rfl, .nil r, htry⟩
    | false =>
      rcases ih r₁ with ⟨r', hfirst, hrefusals⟩ | ⟨r', r'', pre, u, post, hfirst, rfl, hpre, hu⟩
      · exact .inl ⟨r', hfirst, .cons htry hrefusals⟩
      · exact .inr ⟨r', r'', t :: pre, u, post, hfirst, rfl, .cons htry hpre, hu⟩

theorem Refusals.steps {r r' : Option WorkerResourceManager} {ts : List QueueTicket}
    (h : Refusals r ts r') (hs : s.resourceManager = r) (hts : ∀ t ∈ ts, t ∈ s.queued) :
    Steps config limit s { s with resourceManager := r' } := by
  induction h generalizing s with
  | nil r =>
    subst hs
    exact .refl
  | cons refused rest ih =>
    rw [List.forall_mem_cons] at hts
    subst hs
    exact .head (.refuse _ _ hts.1 refused)
      (ih (s := { s with resourceManager := _ }) rfl hts.2)

theorem mem_sortedCandidates :
    t ∈ s.sortedCandidates config now ↔ t ∈ s.queued ∧ s.runnable config t = true := by
  rw [sortedCandidates, (List.perm_insertionSort _ _).mem_iff, List.mem_filter]

/-- What one turn of the loop does. -/
theorem dispatchLoop_succ (config : SchedulerConfig) (now : ℚ) (turns : ℕ)
    (s : WorkerJobScheduler) :
    (config.maxHeavyComputeSlots ≤ s.active.length ∧ s.dispatchLoop config now (turns + 1) = s) ∨
    (∃ r', Refusals s.resourceManager (s.sortedCandidates config now) r' ∧
      s.dispatchLoop config now (turns + 1) = { s with resourceManager := r' }) ∨
    s.active.length < config.maxHeavyComputeSlots ∧
    ∃ r' r'' pre t post, s.sortedCandidates config now = pre ++ t :: post ∧
      Refusals s.resourceManager pre r' ∧ tryReserve r' t = (r'', true) ∧
      s.dispatchLoop config now (turns + 1) =
        ({ s with resourceManager := r'' }.start t).dispatchLoop config now turns := by
  rw [dispatchLoop]
  split_ifs with hslot
  · right
    rcases firstReserved_cases s.resourceManager (s.sortedCandidates config now) with
      ⟨r', hfirst, hrefusals⟩ | ⟨r', r'', pre, t, post, hfirst, hsorted, hpre, ht⟩
    · rw [hfirst]
      exact .inl ⟨r', hrefusals, rfl⟩
    · rw [hfirst]
      exact .inr ⟨hslot, r', r'', pre, t, post, hsorted, hpre, ht, rfl⟩
  · exact .inl ⟨not_lt.mp hslot, rfl⟩

theorem dispatchLoop_steps (now : ℚ) (turns : ℕ) (s : WorkerJobScheduler) :
    Steps config limit s (s.dispatchLoop config now turns) := by
  induction turns generalizing s with
  | zero => exact .refl
  | succ turns ih =>
    rcases dispatchLoop_succ config now turns s with
      ⟨-, heq⟩ | ⟨r', hrefusals, heq⟩ | ⟨hslot, r', r'', pre, t, post, hsorted, hpre, ht, heq⟩
    · rw [heq]
    · rw [heq]
      exact hrefusals.steps rfl fun u hu => (mem_sortedCandidates.mp hu).1
    · have hmem : ∀ u ∈ pre ++ t :: post, u ∈ s.queued ∧ s.runnable config u = true := by
        rw [← hsorted]
        exact fun u hu => mem_sortedCandidates.mp hu
      obtain ⟨htqueued, htrunnable⟩ := hmem t (by simp)
      rw [heq]
      refine (hpre.steps rfl fun u hu => (hmem u (by simp [hu])).1).trans (.head ?_ (ih _))
      exact .start (s := { s with resourceManager := r' }) t r'' htqueued hslot htrunnable ht

theorem dispatchLocked_steps (h : s.Distinct) (now : ℚ) :
    Steps config limit s (s.dispatchLocked config now) :=
  (expireLocked_steps h now).trans (.head .dispatch (dispatchLoop_steps now _ _))

/-! ## Events -/

/-- What is neither queued nor active stays so. -/
theorem Move.gone (h : Move config limit s s') (hn : n ≤ s.sequence)
    (hqueued : s.isQueued n = false) (hactive : s.isActive n = false) :
    n ≤ s'.sequence ∧ s'.isQueued n = false ∧ s'.isActive n = false := by
  rw [← Bool.not_eq_true, isQueued_iff] at hqueued
  rw [← Bool.not_eq_true, isActive_iff] at hactive
  rw [← Bool.not_eq_true, isQueued_iff, ← Bool.not_eq_true, isActive_iff]
  push Not at hqueued hactive ⊢
  cases h with
  | enqueue t number =>
    refine ⟨hn.trans (Nat.le_succ _), fun u hu => ?_, hactive⟩
    rcases List.mem_append.mp hu with hu | hu
    · exact hqueued u hu
    · obtain rfl := List.mem_singleton.mp hu
      omega
  | drop m status caller =>
    rw [dropTicket_sequence, dropTicket_queued, dropTicket_active]
    exact ⟨hn, fun u hu => hqueued u (mem_without.mp hu).1, hactive⟩
  | start t manager queued =>
    rw [start_sequence, start_queued, start_active]
    refine ⟨hn, fun u hu => hqueued u (mem_without.mp hu).1, fun u hu => ?_⟩
    rcases List.mem_append.mp hu with hu | hu
    · exact hactive u hu
    · obtain rfl := List.mem_singleton.mp hu
      exact hqueued u queued
  | stop m status =>
    rw [stop_sequence, stop_queued, stop_active]
    exact ⟨hn, hqueued, fun u hu => hactive u (mem_without.mp hu).1⟩
  | shutdown => exact ⟨hn, fun u hu => absurd hu (List.not_mem_nil), hactive⟩
  | refuse | timer | interrupt | hold | finish | gate | slots | manage | dispatch =>
    exact ⟨hn, hqueued, hactive⟩

theorem Steps.gone (h : Steps config limit s s') (hn : n ≤ s.sequence)
    (hqueued : s.isQueued n = false) (hactive : s.isActive n = false) :
    s'.isQueued n = false ∧ s'.isActive n = false := by
  have hall : n ≤ s'.sequence ∧ s'.isQueued n = false ∧ s'.isActive n = false := by
    induction h with
    | refl => exact ⟨hn, hqueued, hactive⟩
    | tail _ hmove ih => exact hmove.gone ih.1 ih.2.1 ih.2.2
  exact hall.2

/-- A queued ticket is dropped by its own call, which then raises. -/
theorem drop_finish_steps (h : s.Distinct) (hqueued : s.isQueued n = true)
    (hfinal : status.final = true) (now : ℚ) :
    Steps config limit s
      (((s.dropTicket n status .cancelled).dispatchLocked config now).setCaller n .finished) := by
  have hdrop : Move config limit s (s.dropTicket n status .cancelled) :=
    .drop n status .cancelled hqueued hfinal (.inr rfl)
  have hdispatch : Steps config limit (s.dropTicket n status .cancelled)
      ((s.dropTicket n status .cancelled).dispatchLocked config now) :=
    dispatchLocked_steps (hdrop.distinct h) now
  obtain ⟨t, ht, rfl⟩ := isQueued_iff.mp hqueued
  have hgone := hdispatch.gone (n := t.sequence) ?_ ?_ ?_
  · exact .head hdrop (hdispatch.tail (.finish _ hgone.1 hgone.2))
  · rw [dropTicket_sequence]
    exact h.le_queued t ht
  · rw [← Bool.not_eq_true, isQueued_iff, dropTicket_queued]
    rintro ⟨u, hu, hsequence⟩
    exact (mem_without.mp hu).2 hsequence
  · rw [← Bool.not_eq_true, isActive_iff, dropTicket_active]
    rintro ⟨u, hu, hsequence⟩
    exact h.disjoint t ht u hu hsequence.symm

/-- A lease is released, whoever has it. -/
theorem release_steps (h : s.Distinct) (hqueued : s.isQueued n = false)
    (hcaller : s.callers n ≠ .finished) (failed cancelled : Bool) (now : ℚ) :
    Steps config limit s ((s.setCaller n .finished).release config n failed cancelled now) := by
  unfold release
  by_cases hactive : (s.setCaller n .finished).isActive n = true
  · rw [if_pos hactive]
    have hstop : Move config limit s ((s.setCaller n .finished).stop n
        (if cancelled then .cancelled else if failed then .failed else .succeeded)) := by
      refine .stop n _ hactive ?_ hcaller
      cases cancelled <;> cases failed <;> rfl
    exact .head hstop (dispatchLocked_steps (hstop.distinct h) now)
  · rw [if_neg hactive]
    exact .single (.finish n hqueued (Bool.eq_false_iff.mpr hactive))

/-- A call that timed out has an active ticket, and raises. -/
def Leaks (s : WorkerJobScheduler) (n : ℕ) : Prop :=
  (s.callers n = .expired ∨ s.callers n = .timedOut) ∧ s.isActive n = true

theorem resume_steps (h : s.Distinct) (n : ℕ) (now : ℚ) :
    Steps config limit s (s.resume config n now) ∨
      s.Leaks n ∧ s.resume config n now = s.setCaller n .finished := by
  have hexpire : s.callers n = .expired ∨ s.callers n = .timedOut →
      Steps config limit s ((s.expireTicket config n now).1.setCaller n .finished) ∨
        s.Leaks n ∧ (s.expireTicket config n now).1.setCaller n .finished
          = s.setCaller n .finished := by
    intro hcaller
    unfold expireTicket
    cases hqueued : s.isQueued n with
    | true => exact .inl (drop_finish_steps h hqueued rfl now)
    | false =>
      cases hactive : s.isActive n with
      | true => exact .inr ⟨⟨hcaller, hactive⟩, rfl⟩
      | false => exact .inl (.single (.finish n hqueued hactive))
  have hcancel : s.callers n ≠ .finished → Steps config limit s (s.giveUp config n now) := by
    intro hcaller
    unfold giveUp cancel
    cases hqueued : s.isQueued n with
    | true => exact drop_finish_steps h hqueued rfl now
    | false => exact release_steps h hqueued hcaller true false now
  unfold resume
  cases hcaller : s.callers n with
  | granted => exact .inl (.single (.hold n hcaller))
  | expired => exact hexpire (.inl hcaller)
  | timedOut => exact hexpire (.inr hcaller)
  | cancelled => exact .inl (hcancel (by rw [hcaller]; decide))
  | interrupted => exact .inl (hcancel (by rw [hcaller]; decide))
  | absent | waiting | holding | finished => exact .inl .refl

theorem acquire_steps (h : s.Distinct) {request : Request} {drawn : Str} {created now : ℚ}
    (hs' : s.acquire config request drawn created now = .ok s') : Steps config limit s s' := by
  unfold acquire at hs'
  split_ifs at hs' with htimeout hclosed hdepth hactor happ
  obtain rfl := Except.ok.inj hs'
  have henqueue : Move config limit s (s.enqueue (s.ticketOf request drawn created)) := by
    refine .enqueue _ rfl (not_le.mp hdepth) (fun a ha => ?_) (fun a ha => ?_)
    · have hrequest : request.actorId = some a := ha
      simpa [hrequest] using hactor
    · have hrequest : request.appId = some a := ha
      simpa [hrequest] using happ
  exact .head henqueue (dispatchLocked_steps (henqueue.distinct h) now)

theorem matching_steps (h : s.Distinct) (i : Identity) :
    Steps config limit s ((s.queued.filter fun t => t.matches i).foldl
      (fun s t => s.dropTicket t.sequence .cancelled .cancelled) s) := by
  refine foldl_drop_steps .cancelled .cancelled rfl (.inr rfl) (fun _ _ => .inr rfl)
    (h.queued.sublist (List.filter_sublist.map _)) fun u hu => ?_
  exact isQueued_iff.mpr ⟨u, (List.mem_filter.mp hu).1, rfl⟩

theorem cancelQueuedRequest_steps (h : s.Distinct) (i : Identity) (now : ℚ) :
    Steps config limit s (s.cancelQueuedRequest config i now).1 := by
  have hdrops : Steps config limit s _ := matching_steps h i
  unfold cancelQueuedRequest
  split_ifs
  · exact .refl
  · exact .refl
  · cases hmatching : s.queued.filter fun t => t.matches i with
    | nil => exact .refl
    | cons t ts =>
      rw [hmatching] at hdrops
      exact hdrops.trans (dispatchLocked_steps (hdrops.distinct h) now)

/-- The host changes the pins or the evictions, if it may. -/
theorem manage_steps {f : WorkerResourceManager → Option WorkerResourceManager}
    (huntouched : ∀ {m m'}, f m = some m' → m.Untouched m')
    (hsolvent : ∀ {m m'}, m.Solvent → f m = some m' → m'.Solvent) :
    Steps config limit s
      { s with resourceManager := s.resourceManager.map fun m => (f m).getD m } := by
  cases hmanager : s.resourceManager with
  | none =>
    rw [Option.map_none, ← hmanager]
  | some m =>
    rw [Option.map_some]
    cases hf : f m with
    | none =>
      rw [Option.getD_none, ← hmanager]
    | some m' => exact .single (.manage m m' hmanager (huntouched hf) fun hm => hsolvent hm hf)

theorem evicted_steps (s : WorkerJobScheduler) (serviceKey : Str) :
    Steps config limit s { s with
      resourceManager := s.resourceManager.map (WorkerResourceManager.evicted · serviceKey) } :=
  manage_steps (f := fun m => some (m.evicted serviceKey))
    (fun hm => Option.some_inj.mp hm ▸ ⟨rfl, rfl, rfl, rfl, rfl⟩)
    (fun hm heq => Option.some_inj.mp heq ▸ hm.evicted serviceKey)

/-- **An event is made of moves, or a call loses its lease.** -/
theorem after_steps (config : SchedulerConfig) (limit : Str → ℕ) (h : s.Distinct) (hcalls : s.Calls) {e : Event}
    (hlimit : ∀ serviceKey slots, e = .setWorkerSlots serviceKey slots → slots ≤ limit serviceKey) :
    Steps config limit s (s.after config e) ∨
      ∃ n now, e = .resume n now ∧ s.Leaks n ∧ s.after config e = s.setCaller n .finished := by
  cases e with
  | acquire request drawn created now =>
    left
    rw [after]
    cases hacquire : s.acquire config request drawn created now with
    | ok s' => exact acquire_steps h hacquire
    | error _ => exact .refl
  | timer n =>
    left
    rw [after]
    split_ifs with hawaits
    · exact .single (.timer n hawaits)
    · exact .refl
  | interrupt n =>
    left
    rw [after]
    split_ifs with hawaits
    · rw [Bool.or_eq_true, decide_eq_true_eq] at hawaits
      exact .single (.interrupt n hawaits)
    · exact .refl
  | resume n now =>
    rcases resume_steps h n now with hsteps | ⟨hleaks, heq⟩
    · exact .inl hsteps
    · exact .inr ⟨n, now, rfl, hleaks, heq⟩
  | release n failed cancelled now =>
    left
    rw [after]
    split_ifs with hholding
    · exact release_steps h (h.not_isQueued (hcalls.lease n (.inr hholding)))
        (by rw [hholding]; decide) failed cancelled now
    · exact .refl
  | cancel n now =>
    left
    rw [after, cancel]
    split_ifs with hqueued
    · have hdrop : Move config limit s (s.dropTicket n .cancelled .cancelled) :=
        .drop n .cancelled .cancelled hqueued rfl (.inr rfl)
      exact .head hdrop (dispatchLocked_steps (hdrop.distinct h) now)
    · exact .refl
  | cancelQueuedRequest i now => exact .inl (cancelQueuedRequest_steps h i now)
  | snapshot now => exact .inl (expireLocked_steps h now)
  | setBackgroundGate reason paused now =>
    left
    rw [after, setBackgroundGate]
    by_cases hreason : reason = []
    · rw [if_pos hreason]
      exact .refl
    · rw [if_neg hreason]
      refine .head (.gate _) (dispatchLocked_steps ?_ now)
      exact h.mono (.refl _) (.refl _) rfl
  | notifyResourcesChanged now => exact .inl (dispatchLocked_steps h now)
  | setWorkerSlots serviceKey slots =>
    left
    rw [after, setWorkerSlots]
    split_ifs
    · exact .refl
    · exact .single (.slots serviceKey slots (hlimit serviceKey slots rfl))
  | shutdown => exact .inl (.single .shutdown)
  | setPinned serviceKey pinned =>
    exact .inl (manage_steps WorkerResourceManager.untouched_setPinned
      WorkerResourceManager.Solvent.setPinned)
  | evictIdle serviceKey =>
    exact .inl (manage_steps WorkerResourceManager.untouched_evictIdle
      WorkerResourceManager.Solvent.evictIdle)
  | evicted serviceKey now =>
    have hevicted : Steps config limit s _ := evicted_steps s serviceKey
    exact .inl (hevicted.trans (dispatchLocked_steps (Steps.distinct hevicted h) now))

/-! ## Runs -/

theorem Distinct.finish (h : s.Distinct) (n : ℕ) : (s.setCaller n .finished).Distinct :=
  h.mono (.refl _) (.refl _) rfl

/-- A call that loses its lease is of no queued ticket. -/
theorem Calls.leak (h : s.Calls) (hd : s.Distinct) (hn : s.Leaks n) :
    (s.setCaller n .finished).Calls := by
  refine h.setCaller (fun hqueued => ?_) (by decide) (by simp) (by decide)
  have hactive := hd.not_isActive hqueued
  rw [hn.2] at hactive
  cases hactive

/-- **What moves and lost leases keep, runs keep.** -/
theorem run_invariant (config : SchedulerConfig) (limit : Str → ℕ) {P : WorkerJobScheduler → Prop}
    (hmove : ∀ {s s'}, s.Distinct → s.Calls → Move config limit s s' → P s → P s')
    (hleak : ∀ {s n}, s.Distinct → s.Leaks n → P s → P (s.setCaller n .finished))
    {events : List Event}
    (hlimit : ∀ serviceKey slots, .setWorkerSlots serviceKey slots ∈ events →
      slots ≤ limit serviceKey)
    (hd : s.Distinct) (hcalls : s.Calls) (hP : P s) :
    (s.run config events).Distinct ∧ (s.run config events).Calls ∧ P (s.run config events) := by
  have hsteps : ∀ {s s'}, Steps config limit s s' → s.Distinct → s.Calls → P s → P s' := by
    intro s s' h hd hcalls hP
    induction h with
    | refl => exact hP
    | tail h hm ih => exact hmove (Steps.distinct h hd) (Steps.calls h hd hcalls) hm ih
  induction events generalizing s with
  | nil => exact ⟨hd, hcalls, hP⟩
  | cons e events ih =>
    have hrest : ∀ serviceKey slots, .setWorkerSlots serviceKey slots ∈ events →
        slots ≤ limit serviceKey :=
      fun k n hmem => hlimit k n (List.mem_cons_of_mem _ hmem)
    have hfirst : ∀ serviceKey slots, e = .setWorkerSlots serviceKey slots →
        slots ≤ limit serviceKey :=
      fun k n he => hlimit k n (he ▸ List.mem_cons_self ..)
    rcases after_steps config limit hd hcalls hfirst with h | ⟨n, now, -, hn, heq⟩
    · exact ih hrest (Steps.distinct h hd) (Steps.calls h hd hcalls) (hsteps h hd hcalls hP)
    · rw [run, List.foldl_cons, heq]
      exact ih hrest (hd.finish n) (hcalls.leak hd hn) (hleak hd hn hP)

end WorkerJobScheduler

end AI2Apps.Workers
