import AI2Apps.Workers.Moves

/-!
# Slots, queues and memory

What admission promises in every state of every run: the slots of the host, of an actor
and of a service, the places in the queue, and the memory that is reserved.  A ticket is
counted once, wherever it is, and a reservation is there exactly for an active ticket.

* `Within`, `tickets_run`: slots, places and the account of tickets.
* `Reserved`, `reservations_run`: reservations, evictions and pins.
-/

namespace AI2Apps.Workers

namespace WorkerJobScheduler

variable {config : SchedulerConfig} {limit : Str → ℕ} {s s' : WorkerJobScheduler} {n : ℕ}
  {t : QueueTicket} {status : QueueTicketStatus} {caller : Caller}

/-! ## Slots and places -/

/-- The slots and the places that are taken, and the account of all tickets. -/
structure Within (config : SchedulerConfig) (limit : Str → ℕ) (s : WorkerJobScheduler) :
    Prop where
  slots : s.active.length ≤ config.maxHeavyComputeSlots
  actors : ∀ a, s.actorRunning a ≤ config.maxActivePerActor
  services : ∀ k, s.workerRunning k ≤ limit k
  serviceSlots : ∀ k, s.workerSlotsOf config k ≤ limit k
  depth : s.queued.length ≤ config.maxQueueDepth
  queuedActors : ∀ a,
    s.queued.countP (fun t => t.actorId = some a) ≤ config.maxQueuedPerActor
  queuedApps : ∀ a, s.queued.countP (fun t => t.appId = some a) ≤ config.maxQueuedPerApp
  account : s.sequence = s.queued.length + s.active.length + s.ended

theorem within_initial (resourceManager : Option WorkerResourceManager)
    (hlimit : ∀ k, config.defaultWorkerSlots ≤ limit k) :
    (initial resourceManager).Within config limit where
  slots := Nat.zero_le _
  actors _ := Nat.zero_le _
  services _ := Nat.zero_le _
  serviceSlots k := hlimit k
  depth := Nat.zero_le _
  queuedActors _ := Nat.zero_le _
  queuedApps _ := Nat.zero_le _
  account := rfl

theorem length_without {l : List QueueTicket} (hl : (l.map QueueTicket.sequence).Nodup)
    (hn : ∃ t ∈ l, t.sequence = n) : (without n l).length + 1 = l.length := by
  induction l with
  | nil =>
    obtain ⟨t, ht, -⟩ := hn
    cases ht
  | cons u l ih =>
    rw [List.map_cons, List.nodup_cons] at hl
    by_cases heq : u.sequence = n
    · have hrest : without n l = l := by
        refine List.filter_eq_self.mpr fun v hv => decide_eq_true fun hsequence => hl.1 ?_
        rw [heq, ← hsequence]
        exact List.mem_map_of_mem hv
      rw [without, List.filter_cons_of_neg (by simpa using heq)]
      exact congrArg (· + 1) (congrArg List.length hrest)
    · obtain ⟨t, ht, hsequence⟩ := hn
      have htail : t ∈ l := by
        rcases List.mem_cons.mp ht with rfl | ht
        · exact absurd hsequence heq
        · exact ht
      rw [without, List.filter_cons_of_pos (by simpa using heq), List.length_cons, List.length_cons]
      exact congrArg (· + 1) (ih hl.2 ⟨t, htail, hsequence⟩)

theorem countP_append_singleton_le {p : QueueTicket → Bool} {l : List QueueTicket} {bound : ℕ}
    (h : l.countP p ≤ bound) (ht : p t = true → l.countP p < bound) :
    (l ++ [t]).countP p ≤ bound := by
  rw [List.countP_append, List.countP_singleton]
  split_ifs with hp
  · exact ht hp
  · exact h

/-- Tickets that were queued are gone, and as many have ended. -/
theorem Within.drop (h : s.Within config limit) (hqueued : s'.queued.Sublist s.queued)
    (hactive : s'.active = s.active) (hslots : s'.workerSlots = s.workerSlots)
    (haccount : s'.sequence = s'.queued.length + s'.active.length + s'.ended) :
    s'.Within config limit where
  slots := hactive ▸ h.slots
  actors a := by
    rw [actorRunning, hactive]
    exact h.actors a
  services k := by
    rw [workerRunning, hactive]
    exact h.services k
  serviceSlots k := by
    rw [workerSlotsOf, hslots]
    exact h.serviceSlots k
  depth := hqueued.length_le.trans h.depth
  queuedActors a := hqueued.countP_le.trans (h.queuedActors a)
  queuedApps a := hqueued.countP_le.trans (h.queuedApps a)
  account := haccount

theorem Within.enqueue (h : s.Within config limit)
    (depth : s.queued.length < config.maxQueueDepth)
    (actor : ∀ a, t.actorId = some a →
      s.queued.countP (fun t => t.actorId = some a) < config.maxQueuedPerActor)
    (app : ∀ a, t.appId = some a →
      s.queued.countP (fun t => t.appId = some a) < config.maxQueuedPerApp) :
    (s.enqueue t).Within config limit where
  slots := h.slots
  actors := h.actors
  services := h.services
  serviceSlots := h.serviceSlots
  depth := by
    show (s.queued ++ [t]).length ≤ _
    rw [List.length_append, List.length_singleton]
    exact depth
  queuedActors a :=
    countP_append_singleton_le (h.queuedActors a) fun ht => actor a (of_decide_eq_true ht)
  queuedApps a :=
    countP_append_singleton_le (h.queuedApps a) fun ht => app a (of_decide_eq_true ht)
  account := by
    show s.sequence + 1 = (s.queued ++ [t]).length + s.active.length + s.ended
    rw [List.length_append, List.length_singleton, h.account]
    omega

theorem Within.start (h : s.Within config limit) (hd : s.Distinct) (ht : t ∈ s.queued)
    (hslot : s.active.length < config.maxHeavyComputeSlots)
    (hrunnable : s.runnable config t = true) : (s.start t).Within config limit := by
  simp only [runnable, Bool.and_eq_true, decide_eq_true_eq] at hrunnable
  obtain ⟨⟨-, hactor⟩, hservice⟩ := hrunnable
  refine ⟨?_, fun a => ?_, fun k => ?_, ?_, ?_, fun a => ?_, fun a => ?_, ?_⟩
  · rw [start_active, List.length_append, List.length_singleton]
    exact hslot
  · rw [actorRunning, start_active]
    refine countP_append_singleton_le (h.actors a) fun ha => ?_
    rw [of_decide_eq_true ha] at hactor
    exact of_decide_eq_true hactor
  · rw [workerRunning, start_active]
    refine countP_append_singleton_le (h.services k) fun hk => ?_
    rw [of_decide_eq_true hk] at hservice
    exact hservice.trans_le (h.serviceSlots k)
  · intro k
    rw [workerSlotsOf, start_workerSlots]
    exact h.serviceSlots k
  · rw [start_queued]
    exact (List.length_filter_le _ _).trans h.depth
  · rw [start_queued]
    exact List.filter_sublist.countP_le.trans (h.queuedActors a)
  · rw [start_queued]
    exact List.filter_sublist.countP_le.trans (h.queuedApps a)
  · have hlength := length_without hd.queued ⟨t, ht, rfl⟩
    rw [start_sequence, start_queued, start_active, start_ended, List.length_append,
      List.length_singleton, h.account]
    omega

theorem Within.stop (h : s.Within config limit) (hd : s.Distinct) (hn : s.isActive n = true)
    (hfinal : status.final = true) : (s.stop n status).Within config limit := by
  have hsublist : (without n s.active).Sublist s.active := List.filter_sublist
  refine ⟨?_, fun a => ?_, fun k => ?_, fun k => ?_, ?_, fun a => ?_, fun a => ?_, ?_⟩
  · rw [stop_active]
    exact hsublist.length_le.trans h.slots
  · rw [actorRunning, stop_active]
    exact hsublist.countP_le.trans (h.actors a)
  · rw [workerRunning, stop_active]
    exact hsublist.countP_le.trans (h.services k)
  · rw [workerSlotsOf, stop_workerSlots]
    exact h.serviceSlots k
  · rw [stop_queued]
    exact h.depth
  · rw [stop_queued]
    exact h.queuedActors a
  · rw [stop_queued]
    exact h.queuedApps a
  · have hlength := length_without hd.active (isActive_iff.mp hn)
    have hended : (s.stop n status).ended = s.ended + 1 := count_ended hfinal
    rw [stop_sequence, stop_queued, stop_active, hended, h.account]
    omega

theorem Move.within (h : Move config limit s s') (hd : s.Distinct) (hs : s.Within config limit) :
    s'.Within config limit := by
  cases h with
  | enqueue t number depth actor app => exact hs.enqueue depth actor app
  | drop n status caller queued final =>
    refine hs.drop ?_ (dropTicket_active ..) (dropTicket_workerSlots ..) ?_
    · rw [dropTicket_queued]
      exact List.filter_sublist
    · have hlength := length_without hd.queued (isQueued_iff.mp queued)
      have hended : (s.dropTicket n status caller).ended = s.ended + 1 := by
        rw [dropTicket, settleWaiter_ended, count_ended final]
        rfl
      rw [dropTicket_sequence, dropTicket_queued, dropTicket_active, hended, hs.account]
      omega
  | start t manager queued slot runnable =>
    have hmanager : { s with resourceManager := manager }.Within config limit :=
      ⟨hs.slots, hs.actors, hs.services, hs.serviceSlots, hs.depth, hs.queuedActors,
        hs.queuedApps, hs.account⟩
    exact hmanager.start (hd.mono (.refl _) (.refl _) rfl) queued slot runnable
  | stop n status active final =>
    have hcaller : (s.setCaller n .finished).Within config limit :=
      ⟨hs.slots, hs.actors, hs.services, hs.serviceSlots, hs.depth, hs.queuedActors,
        hs.queuedApps, hs.account⟩
    exact hcaller.stop (hd.finish n) active final
  | slots key slots le =>
    refine ⟨hs.slots, hs.actors, hs.services, fun k => ?_, hs.depth, hs.queuedActors,
      hs.queuedApps, hs.account⟩
    show ((Function.update s.workerSlots key (some slots)) k).getD _ ≤ limit k
    by_cases hk : k = key
    · subst hk
      rw [Function.update_self, Option.getD_some]
      exact le
    · rw [Function.update_of_ne hk]
      exact hs.serviceSlots k
  | shutdown =>
    refine hs.drop (List.nil_sublist _) rfl rfl ?_
    show s.sequence = 0 + s.active.length +
      (s.completed + s.failed + (s.cancelled + s.queued.length) + s.expired)
    rw [hs.account, ended]
    omega
  | refuse | timer | interrupt | hold | finish | gate | manage | dispatch =>
    exact ⟨hs.slots, hs.actors, hs.services, hs.serviceSlots, hs.depth, hs.queuedActors,
      hs.queuedApps, hs.account⟩

/-- The most slots that a service ever had. -/
def highest (config : SchedulerConfig) (serviceKey : Str) : List Event → ℕ
  | [] => config.defaultWorkerSlots
  | .setWorkerSlots key slots :: events =>
    if key = serviceKey then max slots (highest config serviceKey events)
    else highest config serviceKey events
  | _ :: events => highest config serviceKey events

theorem le_highest (serviceKey : Str) (events : List Event) :
    config.defaultWorkerSlots ≤ highest config serviceKey events ∧
      ∀ slots, .setWorkerSlots serviceKey slots ∈ events →
        slots ≤ highest config serviceKey events := by
  induction events with
  | nil => exact ⟨le_rfl, fun _ h => absurd h List.not_mem_nil⟩
  | cons e events ih =>
    obtain ⟨hdefault, hslots⟩ := ih
    cases e with
    | setWorkerSlots key slots =>
      rw [highest]
      by_cases hkey : key = serviceKey
      · rw [if_pos hkey]
        refine ⟨hdefault.trans (le_max_right _ _), fun n hn => ?_⟩
        rcases List.mem_cons.mp hn with heq | hn
        · cases heq
          exact le_max_left _ _
        · exact (hslots n hn).trans (le_max_right _ _)
      · rw [if_neg hkey]
        refine ⟨hdefault, fun n hn => ?_⟩
        rcases List.mem_cons.mp hn with heq | hn
        · cases heq
          exact absurd rfl hkey
        · exact hslots n hn
    | _ =>
      refine ⟨hdefault, fun n hn => ?_⟩
      rcases List.mem_cons.mp hn with heq | hn
      · cases heq
      · exact hslots n hn

/-- **The limits hold, and every ticket is counted, in every state of every run.**  The
tickets of a service are as many as the most slots that it ever had. -/
theorem tickets_run (config : SchedulerConfig) (resourceManager : Option WorkerResourceManager)
    (events : List Event) :
    let s := (initial resourceManager).run config events
    s.active.length ≤ config.maxHeavyComputeSlots ∧
      (∀ a, s.actorRunning a ≤ config.maxActivePerActor) ∧
      (∀ k, s.workerRunning k ≤ highest config k events) ∧
      s.queued.length ≤ config.maxQueueDepth ∧
      (∀ a, s.queued.countP (fun t => t.actorId = some a) ≤ config.maxQueuedPerActor) ∧
      (∀ a, s.queued.countP (fun t => t.appId = some a) ≤ config.maxQueuedPerApp) ∧
      ((s.queued ++ s.active).map QueueTicket.sequence).Nodup ∧
      s.sequence = s.queued.length + s.active.length +
        (s.completed + s.failed + s.cancelled + s.expired) := by
  obtain ⟨hd, -, hs⟩ := run_invariant config
    (fun k => highest config k events) (P := Within config fun k => highest config k events)
    (fun hd _ hm => hm.within hd)
    (fun _ _ hs => ⟨hs.slots, hs.actors, hs.services, hs.serviceSlots, hs.depth, hs.queuedActors,
      hs.queuedApps, hs.account⟩)
    (fun k => (le_highest k events).2) (distinct_initial resourceManager)
    (calls_initial resourceManager) (within_initial resourceManager fun k => (le_highest k events).1)
  refine ⟨hs.slots, hs.actors, hs.services, hs.depth, hs.queuedActors, hs.queuedApps, ?_,
    hs.account⟩
  rw [List.map_append, List.nodup_append]
  refine ⟨hd.queued, hd.active, fun a ha b hb => ?_⟩
  obtain ⟨t, ht, rfl⟩ := List.mem_map.mp ha
  obtain ⟨u, hu, rfl⟩ := List.mem_map.mp hb
  exact hd.disjoint t ht u hu

/-! ## Memory -/

/-- The reservations are for the active tickets, and the manager is solvent. -/
structure Reserved (s : WorkerJobScheduler) : Prop where
  solvent : ∀ m ∈ s.resourceManager, m.Solvent
  tickets : ∀ m ∈ s.resourceManager,
    m.reservations.map (fun r => (r.ticketId, r.serviceKey)) =
      s.active.map fun t => (t.sequence, t.serviceKey)

/-- The manager stays, or is refused something. -/
theorem Reserved.congr (h : s.Reserved) (hactive : s'.active = s.active)
    (hmanager : s'.resourceManager = s.resourceManager) : s'.Reserved where
  solvent := hmanager ▸ h.solvent
  tickets := by
    rw [hmanager, hactive]
    exact h.tickets

/-- A queued ticket has no reservation. -/
theorem Reserved.not_reserved {m : WorkerResourceManager} (h : s.Reserved) (hd : s.Distinct)
    (hm : m ∈ s.resourceManager) (ht : t ∈ s.queued) :
    ∀ r ∈ m.reservations, r.ticketId ≠ t.sequence := by
  intro r hr heq
  have hmem : (r.ticketId, r.serviceKey) ∈ s.active.map fun t => (t.sequence, t.serviceKey) := by
    rw [← h.tickets m hm]
    exact List.mem_map_of_mem hr
  obtain ⟨u, hu, hpair⟩ := List.mem_map.mp hmem
  exact hd.disjoint t ht u hu (heq.symm.trans (congrArg Prod.fst hpair).symm)

theorem tryReserve_some (m : WorkerResourceManager) (t : QueueTicket) :
    tryReserve (some m) t =
      (some (m.tryReserve t.sequence t.serviceKey t.estimatedTransientBytes
        t.estimatedResidentBytes).1,
        (m.tryReserve t.sequence t.serviceKey t.estimatedTransientBytes
          t.estimatedResidentBytes).2.isSome) := rfl

/-- What `try_reserve` does for a queued ticket. -/
theorem tryReserve_cases {m : WorkerResourceManager} {manager : Option WorkerResourceManager}
    {reserved : Bool} (h : s.Reserved) (hd : s.Distinct) (hm : s.resourceManager = some m)
    (ht : t ∈ s.queued) (htry : tryReserve s.resourceManager t = (manager, reserved)) :
    ∃ m', manager = some m' ∧
      (reserved = false ∧ m.Refusal m' t.serviceKey t.estimatedTransientBytes
          t.estimatedResidentBytes ∨
        reserved = true ∧ ∃ r, r.ticketId = t.sequence ∧ r.serviceKey = t.serviceKey ∧
          m.Admission m' r) := by
  rw [hm, tryReserve_some] at htry
  obtain ⟨rfl, rfl⟩ := Prod.mk.inj htry
  refine ⟨_, rfl, ?_⟩
  rcases WorkerResourceManager.tryReserve_cases t.serviceKey t.estimatedTransientBytes
      t.estimatedResidentBytes (h.not_reserved hd hm ht) with ⟨hnone, hrefusal⟩ | ⟨r, hsome, hticket, hkey, hadmission⟩
  · exact .inl ⟨by rw [hnone]; rfl, hrefusal⟩
  · exact .inr ⟨by rw [hsome]; rfl, r, hticket, hkey, hadmission⟩

/-- A queued ticket is refused. -/
theorem Reserved.refuse {manager : Option WorkerResourceManager} (hs : s.Reserved) (hd : s.Distinct)
    (queued : t ∈ s.queued) (refused : tryReserve s.resourceManager t = (manager, false)) :
    { s with resourceManager := manager }.Reserved := by
  cases hmanager : s.resourceManager with
  | none =>
    rw [hmanager, tryReserve] at refused
    cases (Prod.mk.inj refused).2
  | some m =>
    obtain ⟨m', rfl, ⟨-, hrefusal⟩ | ⟨htrue, -⟩⟩ :=
      tryReserve_cases hs hd hmanager queued refused
    · have hm : m ∈ s.resourceManager := hmanager
      constructor <;> rintro m'' hm''
      · obtain rfl := Option.some_inj.mp hm''
        exact (hs.solvent m hm).refusal hrefusal
      · obtain rfl := Option.some_inj.mp hm''
        rw [hrefusal.reservations]
        exact hs.tickets m hm
    · cases htrue

theorem Move.reserved (h : Move config limit s s') (hd : s.Distinct) (hs : s.Reserved) :
    s'.Reserved := by
  cases h with
  | drop n status caller =>
    exact hs.congr (dropTicket_active ..) (dropTicket_resourceManager ..)
  | start t manager queued slot runnable reserved =>
    cases hmanager : s.resourceManager with
    | none =>
      rw [hmanager, tryReserve] at reserved
      obtain ⟨rfl, -⟩ := Prod.mk.inj reserved
      constructor <;> rw [start_resourceManager] <;> exact fun m hm => by cases hm
    | some m =>
      obtain ⟨m', rfl, ⟨hfalse, -⟩ | ⟨-, r, hticket, hkey, hadmission⟩⟩ :=
        tryReserve_cases hs hd hmanager queued reserved
      · cases hfalse
      · have hm : m ∈ s.resourceManager := hmanager
        constructor <;> rw [start_resourceManager] <;> rintro m'' hm''
        · obtain rfl := Option.some_inj.mp hm''
          exact (hs.solvent m hm).admission hadmission
        · obtain rfl := Option.some_inj.mp hm''
          rw [hadmission.reservations, start_active, List.map_append, List.map_append,
            hs.tickets m hm, List.map_singleton, List.map_singleton, hticket, hkey]
  | refuse t manager queued refused => exact hs.refuse hd queued refused
  | stop n status =>
    constructor <;> rw [stop_resourceManager] <;> intro m' hm' <;>
      obtain ⟨m, hm, rfl⟩ := Option.mem_map.mp hm'
    · exact (hs.solvent m hm).release n
    · have htickets := hs.tickets m hm
      have hfilter := congrArg (List.filter fun p : ℕ × Str => p.1 ≠ n) htickets
      rw [List.filter_map, List.filter_map] at hfilter
      rw [stop_active]
      exact hfilter
  | manage m m' manager untouched solvent =>
    have hm : m ∈ s.resourceManager := manager
    constructor <;> rintro m'' hm''
    · obtain rfl := Option.some_inj.mp hm''
      exact solvent (hs.solvent m hm)
    · obtain rfl := Option.some_inj.mp hm''
      rw [untouched.reservations]
      exact hs.tickets m hm
  | enqueue | timer | interrupt | hold | finish | gate | slots | shutdown | dispatch =>
    exact hs.congr rfl rfl

theorem Steps.reserved (h : Steps config limit s s') (hd : s.Distinct) (hs : s.Reserved) :
    s'.Reserved := by
  induction h with
  | refl => exact hs
  | tail h hmove ih => exact hmove.reserved (Steps.distinct h hd) ih

/-- A manager is not lost. -/
theorem Move.isSome_resourceManager (h : Move config limit s s')
    (hs : s.resourceManager.isSome = true) : s'.resourceManager.isSome = true := by
  obtain ⟨m, hm⟩ := Option.isSome_iff_exists.mp hs
  cases h with
  | drop n status caller =>
    rw [dropTicket_resourceManager]
    exact hs
  | start t manager queued slot runnable reserved =>
    rw [hm, tryReserve_some] at reserved
    rw [start_resourceManager, ← (Prod.mk.inj reserved).1]
    rfl
  | refuse t manager queued refused =>
    rw [hm, tryReserve_some] at refused
    show manager.isSome = true
    rw [← (Prod.mk.inj refused).1]
    rfl
  | stop n status =>
    rw [stop_resourceManager, Option.isSome_map]
    exact hs
  | manage => rfl
  | enqueue | timer | interrupt | hold | finish | gate | slots | shutdown | dispatch => exact hs

/-- The peak of a later state. -/
def PeaksFrom (s s' : WorkerJobScheduler) : Prop :=
  ∀ m ∈ s.resourceManager, ∃ m' ∈ s'.resourceManager, m.PeaksFrom m'

theorem PeaksFrom.of_eq (h : s'.resourceManager = s.resourceManager) : PeaksFrom s s' :=
  fun m hm => ⟨m, h ▸ hm, .refl m⟩

theorem PeaksFrom.trans {s'' : WorkerJobScheduler} (h : PeaksFrom s s') (h' : PeaksFrom s' s'') :
    PeaksFrom s s'' := by
  intro m hm
  obtain ⟨m', hm', hpeaks⟩ := h m hm
  obtain ⟨m'', hm'', hpeaks'⟩ := h' m' hm'
  exact ⟨m'', hm'', hpeaks.trans hpeaks'⟩

theorem Move.peaksFrom (h : Move config limit s s') (hd : s.Distinct) (hs : s.Reserved) :
    PeaksFrom s s' := by
  cases h with
  | drop n status caller => exact .of_eq (dropTicket_resourceManager ..)
  | start t manager queued slot runnable reserved =>
    intro m hm
    rw [start_resourceManager]
    obtain ⟨m', rfl, ⟨hfalse, -⟩ | ⟨-, r, -, -, hadmission⟩⟩ :=
      tryReserve_cases hs hd (Option.mem_def.mp hm) queued reserved
    · exact absurd hfalse.symm Bool.false_ne_true
    · exact ⟨m', rfl, hadmission.peaksFrom⟩
  | refuse t manager queued refused =>
    intro m hm
    obtain ⟨m', rfl, ⟨-, hrefusal⟩ | ⟨htrue, -⟩⟩ :=
      tryReserve_cases hs hd (Option.mem_def.mp hm) queued refused
    · exact ⟨m', rfl, hrefusal.peaksFrom⟩
    · exact absurd htrue Bool.false_ne_true
  | stop n status =>
    intro m hm
    rw [stop_resourceManager]
    exact ⟨m.release n, Option.mem_map_of_mem _ hm, rfl, rfl, le_rfl, .inl rfl⟩
  | manage m m' manager untouched =>
    intro m₁ hm₁
    obtain rfl := Option.some_inj.mp (manager.symm.trans hm₁)
    exact ⟨m', rfl, untouched.peaksFrom⟩
  | enqueue | timer | interrupt | hold | finish | gate | slots | shutdown | dispatch => exact .of_eq rfl

/-- **An event raises the peak only to what a snapshot that it takes has room for.** -/
theorem peaksFrom_after (e : Event) (hd : s.Distinct) (hcalls : s.Calls) (hs : s.Reserved) :
    PeaksFrom s (s.after config e) := by
  obtain ⟨-, -, -, hpeaks⟩ := run_invariant config (fun k => highest config k [e])
    (P := fun s' => s'.Reserved ∧ PeaksFrom s s')
    (fun hd _ hmove hs' => ⟨hmove.reserved hd hs'.1, hs'.2.trans (hmove.peaksFrom hd hs'.1)⟩)
    (fun _ _ hs' => ⟨hs'.1.congr rfl rfl, hs'.2⟩)
    (fun k => (le_highest k [e]).2) hd hcalls ⟨hs, .of_eq rfl⟩
  exact hpeaks

/-- **Memory is reserved exactly for the active tickets, and only what a snapshot had room
for; a worker that is being evicted has no ticket and no pin; and an event that raises the
peak takes a snapshot that has room for it.** -/
theorem reservations_run (config : SchedulerConfig) (resources : WorkerResourceConfig)
    (sampler : ℕ → SystemMemorySnapshot) (pinned : Finset Str) (events : List Event) :
    let s := (initial (some (.initial resources sampler pinned))).run config events
    ∃ m, s.resourceManager = some m ∧
      m.reservations.map (fun r => (r.ticketId, r.serviceKey)) =
          s.active.map (fun t => (t.sequence, t.serviceKey)) ∧
        (∀ t ∈ s.active, t.serviceKey ∉ m.evicting) ∧ Disjoint m.pinned m.evicting ∧
        m.reservedBytes ≤ m.peakReservedBytes ∧ m.Covered m.peakReservedBytes ∧
        ∀ e, ∃ m', (s.after config e).resourceManager = some m' ∧ m.PeaksFrom m' := by
  intro s
  have hstart : (initial (some (.initial resources sampler pinned))).Reserved :=
    ⟨fun m hm => Option.some_inj.mp hm ▸ WorkerResourceManager.solvent_initial ..,
      fun m hm => Option.some_inj.mp hm ▸ rfl⟩
  obtain ⟨hd, hcalls, hs, hsome⟩ := run_invariant config (fun k => highest config k events)
    (P := fun s => s.Reserved ∧ s.resourceManager.isSome = true)
    (fun hd _ hmove hs => ⟨hmove.reserved hd hs.1, hmove.isSome_resourceManager hs.2⟩)
    (fun _ _ hs => ⟨hs.1.congr rfl rfl, hs.2⟩)
    (fun k => (le_highest k events).2) (distinct_initial _) (calls_initial _) ⟨hstart, rfl⟩
  obtain ⟨m, hm⟩ := Option.isSome_iff_exists.mp hsome
  have htickets := hs.tickets m hm
  have hsolvent := hs.solvent m hm
  refine ⟨m, hm, htickets, fun t ht => ?_, hsolvent.pinned, hsolvent.le_peak, hsolvent.peak, fun e => ?_⟩
  · have hmem : (t.sequence, t.serviceKey) ∈
        m.reservations.map fun r => (r.ticketId, r.serviceKey) := by
      rw [htickets]
      exact List.mem_map_of_mem ht
    obtain ⟨r, hr, hpair⟩ := List.mem_map.mp hmem
    have hkey : r.serviceKey = t.serviceKey := congrArg Prod.snd hpair
    rw [← hkey]
    exact hsolvent.available r hr
  · exact peaksFrom_after e hd hcalls hs m hm

end WorkerJobScheduler

end AI2Apps.Workers
