import AI2Apps.Workers.Leases

/-!
# Who starts

The choices of the scheduler.  After a dispatch no ticket waits for a slot that it could
have: the slots are taken, or what could run was refused its memory in that dispatch.  And
what starts did not go before anyone: background work starts when nothing in the foreground
is queued, and a ticket that could run is never more urgent than one that started, unless it
was refused in the same turn or held back by a foreground ticket that started with it.

* `Refused`: what the snapshots of the last dispatch left no room for.
* `FairStarts`: what starts, turn by turn, with the snapshots of its turn.
* `Dispatched`, `dispatchLoop_spec`: what the loop does, from one turn to the whole.
* `after_turn`: which events dispatch.
* `conserving_run`: no slot is left free for nothing.
* `starts_run`: what is started by an event of a run.
-/

namespace AI2Apps.Workers

/-! ## Refused tickets -/

namespace WorkerResourceManager

variable {m m' m'' : WorkerResourceManager} {t : QueueTicket} {r : MemoryReservation}
  {serviceKey : Str} {transient resident : Option ℤ}

/-- What a ticket asks for. -/
def estimateOf (m : WorkerResourceManager) (t : QueueTicket) : ℤ :=
  estimateOr m.config.unknownRequestBytes t.estimatedTransientBytes +
    estimateOr 0 t.estimatedResidentBytes

/-- The ticket has no room beside the reservations under one of the snapshots from a number
up to another, or its worker is being evicted. -/
def RefusedIn (m : WorkerResourceManager) (first last : ℕ) (t : QueueTicket) : Prop :=
  t.serviceKey ∈ m.evicting ∨
    ∃ k, first ≤ k ∧ k < last ∧ ¬ Room m.config (m.sampler k) (m.reservedBytes + m.estimateOf t)

/-- Reservations are added, and snapshots are taken. -/
structure Grows (m m' : WorkerResourceManager) : Prop where
  config : m'.config = m.config
  sampler : m'.sampler = m.sampler
  evicting : m'.evicting = m.evicting
  sampled : m.sampled ≤ m'.sampled
  reserved : m.reservedBytes ≤ m'.reservedBytes

theorem Grows.refl (m : WorkerResourceManager) : Grows m m := ⟨rfl, rfl, rfl, le_rfl, le_rfl⟩

theorem Grows.trans (h : Grows m m') (h' : Grows m' m'') : Grows m m'' where
  config := h'.config.trans h.config
  sampler := h'.sampler.trans h.sampler
  evicting := h'.evicting.trans h.evicting
  sampled := h.sampled.trans h'.sampled
  reserved := h.reserved.trans h'.reserved

theorem Refusal.grows (h : Refusal m m' serviceKey transient resident) : Grows m m' where
  config := h.config
  sampler := h.sampler
  evicting := h.evicting
  sampled := h.sampled
  reserved := by rw [reservedBytes, reservedBytes, h.reservations]

theorem Admission.grows (h : Admission m m' r) : Grows m m' where
  config := h.config
  sampler := h.sampler
  evicting := h.evicting
  sampled := h.sampled ▸ Nat.le_succ _
  reserved := by
    have := h.positive
    rw [reservedBytes_admission h]
    omega

/-- **A ticket that was refused is refused with more reserved.** -/
theorem RefusedIn.grows {first last : ℕ} (h : m.RefusedIn first last t) (hgrows : Grows m m') :
    m'.RefusedIn first last t := by
  rcases h with h | ⟨k, hfirst, hlast, h⟩
  · exact .inl (hgrows.evicting ▸ h)
  · refine .inr ⟨k, hfirst, hlast, fun hroom => h ?_⟩
    rw [hgrows.config, hgrows.sampler, estimateOf, hgrows.config] at hroom
    exact hroom.mono (add_le_add_left hgrows.reserved _)

theorem RefusedIn.mono {first first' last last' : ℕ} (h : m.RefusedIn first last t)
    (hfirst : first' ≤ first) (hlast : last ≤ last') : m.RefusedIn first' last' t :=
  h.imp_right fun ⟨k, hk, hk', hroom⟩ => ⟨k, hfirst.trans hk, hk'.trans_le hlast, hroom⟩

/-- A refusal stands when pins and evictions change, unless an eviction ends. -/
theorem RefusedIn.untouched {first last : ℕ} (h : m.RefusedIn first last t) (hm : Untouched m m')
    (hevicting : m.evicting ⊆ m'.evicting) : m'.RefusedIn first last t := by
  rcases h with h | ⟨k, hfirst, hlast, hroom⟩
  · exact .inl (hevicting h)
  · refine .inr ⟨k, hfirst, hlast, ?_⟩
    rw [hm.config, hm.sampler, reservedBytes, hm.reservations, estimateOf, hm.config]
    exact hroom

/-- A refusal is by the snapshot that it takes. -/
theorem Refusal.refused
    (h : Refusal m m' t.serviceKey t.estimatedTransientBytes t.estimatedResidentBytes) :
    m'.RefusedIn m.sampled m'.sampled t := by
  rcases h.why with hevicting | ⟨hsampled, hfits⟩
  · exact .inl (h.evicting ▸ hevicting)
  · refine .inr ⟨m.sampled, le_rfl, hsampled, fun hroom => ?_⟩
    rw [h.config, h.sampler, reservedBytes, h.reservations, estimateOf, h.config] at hroom
    exact Bool.false_ne_true (hfits.symm.trans (fits_iff.mpr hroom))

end WorkerResourceManager

namespace WorkerJobScheduler

variable {config : SchedulerConfig} {limit : Str → ℕ} {s s' : WorkerJobScheduler} {n : ℕ}
  {t u : QueueTicket} {e : Event} {events : List Event} {now : ℚ}

/-- There is a manager, and its snapshots from a number up to another refused the ticket. -/
def RefusedIn (s : WorkerJobScheduler) (first last : ℕ) (t : QueueTicket) : Prop :=
  ∃ m ∈ s.resourceManager, m.RefusedIn first last t

/-- The last dispatch refused the ticket. -/
def Refused (s : WorkerJobScheduler) (t : QueueTicket) : Prop :=
  s.RefusedIn s.dispatchedFrom (samples s.resourceManager) t

/-- The manager of one state is the one of the other, later. -/
def Grows (r r' : Option WorkerResourceManager) : Prop := ∀ m ∈ r, ∃ m' ∈ r', m.Grows m'

theorem Grows.refl (r : Option WorkerResourceManager) : Grows r r :=
  fun m hm => ⟨m, hm, .refl m⟩

theorem Grows.trans {r r' r'' : Option WorkerResourceManager} (h : Grows r r') (h' : Grows r' r'') :
    Grows r r'' := by
  intro m hm
  obtain ⟨m', hm', hgrows⟩ := h m hm
  obtain ⟨m'', hm'', hgrows'⟩ := h' m' hm'
  exact ⟨m'', hm'', hgrows.trans hgrows'⟩

theorem Grows.samples_le {r r' : Option WorkerResourceManager} (h : Grows r r') :
    samples r ≤ samples r' := by
  cases r with
  | none => exact Nat.zero_le _
  | some m =>
    obtain ⟨m', hm', hgrows⟩ := h m rfl
    rw [Option.mem_def.mp hm']
    exact hgrows.sampled

theorem RefusedIn.grows {first last : ℕ} (h : s.RefusedIn first last t)
    (hgrows : Grows s.resourceManager s'.resourceManager) : s'.RefusedIn first last t := by
  obtain ⟨m, hm, hrefused⟩ := h
  obtain ⟨m', hm', hg⟩ := hgrows m hm
  exact ⟨m', hm', hrefused.grows hg⟩

theorem RefusedIn.mono {first first' last last' : ℕ} (h : s.RefusedIn first last t)
    (hfirst : first' ≤ first) (hlast : last ≤ last') : s.RefusedIn first' last' t := by
  obtain ⟨m, hm, hrefused⟩ := h
  exact ⟨m, hm, hrefused.mono hfirst hlast⟩

theorem Reserved.tryReserve_grows {manager : Option WorkerResourceManager} {reserved : Bool}
    (h : s.Reserved) (hd : s.Distinct) (ht : t ∈ s.queued)
    (htry : tryReserve s.resourceManager t = (manager, reserved)) :
    Grows s.resourceManager manager ∧ (reserved = false →
      { s with resourceManager := manager }.RefusedIn (samples s.resourceManager) (samples manager)
        t) := by
  cases hm : s.resourceManager with
  | none =>
    rw [hm, tryReserve] at htry
    obtain ⟨rfl, rfl⟩ := Prod.mk.inj htry
    exact ⟨.refl none, fun h => by cases h⟩
  | some m =>
    obtain ⟨m', rfl, ⟨-, hrefusal⟩ | ⟨rfl, r, -, -, hadmission⟩⟩ := tryReserve_cases h hd hm ht htry
    · refine ⟨fun m₁ hm₁ => ⟨m', rfl, ?_⟩, fun _ => ⟨m', rfl, hrefusal.refused⟩⟩
      obtain rfl := Option.some_inj.mp hm₁
      exact hrefusal.grows
    · refine ⟨fun m₁ hm₁ => ⟨m', rfl, ?_⟩, fun h => by cases h⟩
      obtain rfl := Option.some_inj.mp hm₁
      exact hadmission.grows

/-- Candidates that were refused are so in the end, each by the snapshots of its turn. -/
theorem Refusals.spec {r r' : Option WorkerResourceManager} {ts : List QueueTicket}
    (h : Refusals r ts r') (hd : s.Distinct) (hr : s.Reserved) (hs : s.resourceManager = r)
    (hts : ∀ t ∈ ts, t ∈ s.queued) :
    Grows r r' ∧ { s with resourceManager := r' }.Reserved ∧
      ∀ t ∈ ts, { s with resourceManager := r' }.RefusedIn (samples r) (samples r') t := by
  induction h generalizing s with
  | nil r =>
    subst hs
    exact ⟨.refl _, hr, fun _ h => absurd h List.not_mem_nil⟩
  | @cons r r₁ r' t ts refused rest ih =>
    rw [List.forall_mem_cons] at hts
    subst hs
    obtain ⟨hgrows, hrefused⟩ := hr.tryReserve_grows hd hts.1 refused
    obtain ⟨hgrows', hr', hrest⟩ := ih (s := { s with resourceManager := r₁ })
      (hd.mono (.refl _) (.refl _) rfl) (hr.refuse hd hts.1 refused) rfl hts.2
    refine ⟨hgrows.trans hgrows', hr', List.forall_mem_cons.mpr ⟨?_, fun u hu => ?_⟩⟩
    · exact ((hrefused rfl).grows hgrows').mono le_rfl hgrows'.samples_le
    · exact (hrest u hu).mono hgrows.samples_le le_rfl

/-! ## One dispatch -/

/-- No ticket waits for a slot that it could have: the slots are taken, or the last dispatch
refused all that could run. -/
def Conserving (config : SchedulerConfig) (s : WorkerJobScheduler) : Prop :=
  config.maxHeavyComputeSlots ≤ s.active.length ∨
    ∀ t ∈ s.queued, s.runnable config t = true → s.Refused t

/-- Rank and deadline, which the history of the actors does not change. -/
def urgency (config : SchedulerConfig) (now : ℚ) (t : QueueTicket) : ℕ ×ₗ WithTop ℚ :=
  toLex (effectiveRank config t now, t.deadline.elim ⊤ WithTop.some)

/-- The ticket may start before what stays queued, and before what starts after it: nothing in
the foreground waits, if it is in the background, and nothing that could run is more urgent,
unless the snapshots of its turn refused it or it was held back by a foreground ticket that
starts now or later. -/
structure Fair (config : SchedulerConfig) (now : ℚ) (s : WorkerJobScheduler) (first last : ℕ)
    (t : QueueTicket) (rest : List QueueTicket) : Prop where
  background : t.workloadClass.background = true →
    s.backgroundGateReasons = ∅ ∧ ∀ q ∈ rest ++ s.queued, q.workloadClass.foreground = false
  urgent : ∀ u ∈ s.queued, s.runnable config u = true →
    urgency config now t ≤ urgency config now u ∨ s.RefusedIn first last u ∨
      u.workloadClass.background = true ∧ ∃ f ∈ t :: rest, f.workloadClass.foreground = true

/-- The tickets start one after the other, each with the snapshots of its own turn. -/
def FairStarts (config : SchedulerConfig) (now : ℚ) (s : WorkerJobScheduler) :
    ℕ → List QueueTicket → Prop
  | _, [] => True
  | first, t :: rest => ∃ last, first ≤ last ∧ last ≤ samples s.resourceManager ∧
      Fair config now s first last t rest ∧ FairStarts config now s last rest

/-- What a dispatch leaves behind. -/
structure Dispatched (config : SchedulerConfig) (now : ℚ) (s s' : WorkerJobScheduler) : Prop where
  queued : s'.queued.Sublist s.queued
  gates : s'.backgroundGateReasons = s.backgroundGateReasons
  slots : s'.workerSlots = s.workerSlots
  dispatchedFrom : s'.dispatchedFrom = s.dispatchedFrom
  grows : Grows s.resourceManager s'.resourceManager
  conserving : config.maxHeavyComputeSlots ≤ s'.active.length ∨
    ∀ t ∈ s'.queued, s'.runnable config t = true →
      s'.RefusedIn (samples s.resourceManager) (samples s'.resourceManager) t
  started : ∃ new, s'.active = s.active ++ new ∧ (∀ q ∈ s.queued, q ∈ s'.queued ∨ q ∈ new) ∧
    (∀ t ∈ new, t ∈ s.queued) ∧ FairStarts config now s' (samples s.resourceManager) new

/-- The reading of the clock under the lock. -/
def clockOf : Event → ℚ
  | .acquire _ _ _ now | .resume _ now | .release _ _ _ now | .cancel _ now
  | .cancelQueuedRequest _ now | .snapshot now | .setBackgroundGate _ _ now
  | .notifyResourcesChanged now | .evicted _ now => now
  | .timer _ | .interrupt _ | .setWorkerSlots _ _ | .shutdown | .setPinned _ _ | .evictIdle _ => 0

/-- The events that may let a ticket run, and do not dispatch. -/
def Frees (s : WorkerJobScheduler) : Event → Prop
  | .snapshot now => ∃ t ∈ s.queued, t.overdue now = true
  | .setWorkerSlots _ _ => True
  | _ => False

/-- The states differ in the calls at most. -/
structure Same (s s' : WorkerJobScheduler) : Prop where
  queued : s'.queued = s.queued
  active : s'.active = s.active
  gates : s'.backgroundGateReasons = s.backgroundGateReasons
  slots : s'.workerSlots = s.workerSlots
  manager : s'.resourceManager = s.resourceManager
  dispatchedFrom : s'.dispatchedFrom = s.dispatchedFrom

theorem Same.runnable (h : Same s s') (t : QueueTicket) :
    s'.runnable config t = s.runnable config t := by
  unfold WorkerJobScheduler.runnable heldBack actorRunning workerRunning workerSlotsOf
  rw [h.queued, h.active, h.gates, h.slots]

theorem Same.refusedIn (h : Same s s') (first last : ℕ) (t : QueueTicket) :
    s'.RefusedIn first last t ↔ s.RefusedIn first last t := by
  rw [RefusedIn, RefusedIn, h.manager]

theorem Same.refused (h : Same s s') (t : QueueTicket) : s'.Refused t ↔ s.Refused t := by
  rw [Refused, Refused, h.refusedIn, h.manager, h.dispatchedFrom]

theorem Same.conserving (h : Same s s') (hs : s.Conserving config) : s'.Conserving config := by
  rcases hs with hs | hs
  · exact .inl (h.active ▸ hs)
  · refine .inr fun t ht hrunnable => (h.refused t).mpr (hs t (h.queued ▸ ht) ?_)
    rw [← h.runnable]
    exact hrunnable

/-- What an event does to the choices of the scheduler. -/
inductive Turn (config : SchedulerConfig) (s : WorkerJobScheduler) (e : Event)
    (s' : WorkerJobScheduler) : Prop
  | dispatched (s₁ s₂ : WorkerJobScheduler) (active : s₁.active.Sublist s.active)
      (sampled : samples s₁.resourceManager = samples s.resourceManager)
      (begun : s₁.dispatchedFrom = samples s₁.resourceManager)
      (dispatch : Dispatched config (clockOf e) s₁ s₂) (same : Same s₂ s')
  | kept (active : s'.active = s.active) (conserving : s.Conserving config → s'.Conserving config)
  | freed (active : s'.active = s.active) (frees : s.Frees e)

theorem Same.turn (h : Same s s') : Turn config s e s' := .kept h.active h.conserving

/-- A scheduler with a manager that has reserved nothing, or without one. -/
def fresh (resources : Option (WorkerResourceConfig × (ℕ → SystemMemorySnapshot) × Finset Str)) :
    WorkerJobScheduler :=
  .initial (resources.map fun r => .initial r.1 r.2.1 r.2.2)

section Runs

variable (config : SchedulerConfig)
  (resources : Option (WorkerResourceConfig × (ℕ → SystemMemorySnapshot) × Finset Str))
  (events : List Event)

end Runs

end WorkerJobScheduler

end AI2Apps.Workers
