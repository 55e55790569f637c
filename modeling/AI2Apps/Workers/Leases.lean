import AI2Apps.Workers.Limits

/-!
# Leases

Who is going to give a slot back.  A call of `acquire` that has its lease, or whose future
has it, stands for an active ticket; and an active ticket has such a call, or one that
is cleaning up.  There is one exception: a call whose timer fires in the turn in which its
ticket is started finds no queued ticket to expire, and raises without the lease.

* `Lost`: the call raised while its ticket was active.
* `leases_run`: the calls and the active tickets, in every state of every run.
-/

namespace AI2Apps.Workers

namespace WorkerJobScheduler

variable {config : SchedulerConfig} {limit : Str → ℕ} {s s' : WorkerJobScheduler} {n : ℕ}
  {e : Event} {events : List Event}

/-- The call of the ticket is over, and the ticket is active. -/
def Abandoned (s : WorkerJobScheduler) (n : ℕ) : Prop :=
  s.callers n = .finished ∧ s.isActive n = true

/-- One call goes on, whose ticket is not abandoned before or after. -/
theorem abandoned_iff_of {m : ℕ} (hcallers : m ≠ n → s'.callers n = s.callers n)
    (hactive : m ≠ n → s'.isActive n = s.isActive n) (hm : ¬ s.Abandoned m)
    (hm' : ¬ s'.Abandoned m) : s'.Abandoned n ↔ s.Abandoned n := by
  by_cases heq : m = n
  · subst heq
    exact iff_of_false hm' hm
  · rw [Abandoned, Abandoned, hcallers heq, hactive heq]

theorem not_abandoned_of_caller {caller : Caller} (h : s.callers n = caller)
    (hcaller : caller ≠ .finished) : ¬ s.Abandoned n :=
  fun hn => hcaller (h.symm.trans hn.1)

theorem not_abandoned_of_inactive (h : s.isActive n = false) : ¬ s.Abandoned n := by
  rintro ⟨-, hn⟩
  rw [h] at hn
  cases hn

theorem abandoned_setCaller {m : ℕ} {caller : Caller} (hcaller : caller ≠ .finished)
    (hm : s.callers m ≠ .finished) : (s.setCaller m caller).Abandoned n ↔ s.Abandoned n :=
  abandoned_iff_of (m := m) (fun hne => Function.update_of_ne hne.symm _ _) (fun _ => rfl)
    (not_abandoned_of_caller rfl hm) (not_abandoned_of_caller (Function.update_self ..) hcaller)

/-- **A move neither abandons a ticket nor takes the slot of an abandoned one back.** -/
theorem Move.abandoned_iff (h : Move config limit s s') (hd : s.Distinct) (hc : s.Calls) :
    s'.Abandoned n ↔ s.Abandoned n := by
  cases h with
  | enqueue t number =>
    refine abandoned_iff_of (m := t.sequence) (fun hne => Function.update_of_ne hne.symm _ _)
      (fun _ => rfl) (not_abandoned_of_inactive ?_)
      (not_abandoned_of_caller (Function.update_self ..) (by decide))
    rw [← Bool.not_eq_true, isActive_iff]
    rintro ⟨u, hu, hsequence⟩
    have := hd.le_active u hu
    omega
  | drop m status caller queued =>
    have hactive : (s.dropTicket m status caller).isActive = s.isActive := by
      funext k
      rw [isActive, dropTicket_active]
      rfl
    have hinactive := hd.not_isActive queued
    refine abandoned_iff_of (m := m) (fun hne => ?_) (fun _ => congrFun hactive n)
      (not_abandoned_of_inactive hinactive)
      (not_abandoned_of_inactive ((congrFun hactive m).trans hinactive))
    rw [dropTicket_callers, Function.update_of_ne hne.symm]
  | start t manager queued =>
    refine abandoned_iff_of (m := t.sequence) (fun hne => ?_)
      (fun hne => isActive_eq_of (fun u hu => ?_) hne.symm)
      (not_abandoned_of_inactive (hd.not_isActive (isQueued_iff.mpr ⟨t, queued, rfl⟩))) ?_
    · rw [start_callers, Function.update_of_ne hne.symm]
    · rw [start_active, List.mem_append, List.mem_singleton]
      exact or_iff_left fun heq => hu (congrArg QueueTicket.sequence heq)
    · rintro ⟨hfinished, -⟩
      rw [start_callers, Function.update_self] at hfinished
      rcases hc.queued t queued with hcaller | hcaller | hcaller
      · rw [if_pos hcaller] at hfinished
        cases hfinished
      · rw [hcaller] at hfinished
        cases hfinished
      · rw [hcaller] at hfinished
        cases hfinished
  | stop m status active final caller =>
    refine abandoned_iff_of (m := m) (fun hne => ?_)
      (fun hne => isActive_eq_of (fun u hu => ?_) hne.symm)
      (not_abandoned_of_caller rfl caller) (not_abandoned_of_inactive ?_)
    · rw [stop_callers]
      exact Function.update_of_ne hne.symm _ _
    · rw [stop_active, mem_without]
      exact and_iff_left hu
    · rw [← Bool.not_eq_true, isActive_iff, stop_active]
      rintro ⟨u, hu, hsequence⟩
      exact (mem_without.mp hu).2 hsequence
  | timer m awaits =>
    refine abandoned_setCaller (by decide) fun hfinished => ?_
    rw [hfinished] at awaits
    cases awaits
  | interrupt m awaits =>
    refine abandoned_setCaller (by decide) fun hfinished => ?_
    rw [hfinished] at awaits
    rcases awaits with hawaits | hawaits <;> cases hawaits
  | hold m granted =>
    refine abandoned_setCaller (by decide) fun hfinished => ?_
    rw [hfinished] at granted
    cases granted
  | finish m queued active =>
    exact abandoned_iff_of (m := m) (fun hne => Function.update_of_ne hne.symm _ _)
      (fun _ => rfl) (not_abandoned_of_inactive active) (not_abandoned_of_inactive active)
  | shutdown =>
    have hcallers : s.shutdown.callers n = .finished ↔ s.callers n = .finished := by
      show (if s.isQueued n && s.callers n = .waiting then Caller.cancelled else s.callers n)
        = .finished ↔ _
      split_ifs with hwaiting
      · rw [Bool.and_eq_true, decide_eq_true_eq] at hwaiting
        rw [hwaiting.2]
        decide
      · rfl
    exact and_congr_left' hcallers
  | refuse | gate | slots | manage | dispatch => rfl

theorem Steps.abandoned_iff (h : Steps config limit s s') (hd : s.Distinct) (hc : s.Calls) :
    s'.Abandoned n ↔ s.Abandoned n := by
  induction h with
  | refl => rfl
  | tail h hmove ih =>
    exact (hmove.abandoned_iff (Steps.distinct h hd) (Steps.calls h hd hc)).trans ih

/-! ## Lost leases -/

/-- In the run a timed-out call was resumed while its ticket was active. -/
def Lost (config : SchedulerConfig) (s : WorkerJobScheduler) (events : List Event) (n : ℕ) : Prop :=
  ∃ before now later, events = before ++ .resume n now :: later ∧
    (s.run config before).callers n = .timedOut ∧ (s.run config before).isActive n = true

theorem run_concat (s : WorkerJobScheduler) (events : List Event) (e : Event) :
    s.run config (events ++ [e]) = (s.run config events).after config e := by
  rw [run, List.foldl_append]
  rfl

theorem lost_concat_iff :
    Lost config s (events ++ [e]) n ↔ Lost config s events n ∨
      ∃ now, e = .resume n now ∧ (s.run config events).callers n = .timedOut ∧
        (s.run config events).isActive n = true := by
  constructor
  · rintro ⟨before, now, later, heq, htimedOut, hactive⟩
    rcases List.eq_nil_or_concat later with rfl | ⟨later, e', rfl⟩
    · obtain ⟨rfl, he⟩ := List.append_inj' heq rfl
      exact .inr ⟨now, (List.cons.inj he).1, htimedOut, hactive⟩
    · rw [List.concat_eq_append, ← List.cons_append, ← List.append_assoc] at heq
      exact .inl ⟨before, now, later, (List.append_inj' heq rfl).1, htimedOut, hactive⟩
  · rintro (⟨before, now, later, rfl, hlost⟩ | ⟨now, rfl, hlost⟩)
    · refine ⟨before, now, later ++ [e], ?_, hlost⟩
      rw [List.append_assoc, List.cons_append]
    · exact ⟨events, now, [], rfl, hlost⟩

/-- A call that timed out does not find its ticket in the queue. -/
theorem resume_of_lost (hd : s.Distinct) (htimedOut : s.callers n = .timedOut)
    (hactive : s.isActive n = true) (now : ℚ) :
    s.resume config n now = s.setCaller n .finished := by
  have hqueued : ¬ s.isQueued n = true := Bool.eq_false_iff.mp (hd.not_isQueued hactive)
  rw [resume, htimedOut]
  show (s.expireTicket config n now).1.setCaller n .finished = _
  rw [expireTicket, if_neg hqueued]

/-- What one event does to the abandoned tickets. -/
theorem abandoned_after_iff (limit : Str → ℕ) (hd : s.Distinct) (hc : s.Calls)
    (hlimit : ∀ k slots, e = .setWorkerSlots k slots → slots ≤ limit k) :
    (s.after config e).Abandoned n ↔ s.Abandoned n ∨
      ∃ now, e = .resume n now ∧ s.callers n = .timedOut ∧ s.isActive n = true := by
  constructor
  · intro h
    rcases after_steps config limit hd hc hlimit with
      hsteps | ⟨m, now, rfl, ⟨hcaller, hactive⟩, heq⟩
    · exact .inl ((Steps.abandoned_iff hsteps hd hc).mp h)
    · rw [heq] at h
      by_cases hm : m = n
      · subst hm
        rcases hcaller with hcaller | hcaller
        · rw [hc.failed m (.inr (.inl hcaller))] at hactive
          cases hactive
        · exact .inr ⟨now, rfl, hcaller, hactive⟩
      · refine .inl ⟨?_, h.2⟩
        rw [← h.1]
        exact (Function.update_of_ne (Ne.symm hm) _ _).symm
  · rintro (h | ⟨now, rfl, htimedOut, hactive⟩)
    · rcases after_steps config limit hd hc hlimit with
        hsteps | ⟨m, now, rfl, ⟨hcaller, -⟩, heq⟩
      · exact (Steps.abandoned_iff hsteps hd hc).mpr h
      · rw [heq]
        refine ⟨?_, h.2⟩
        by_cases hm : n = m
        · subst hm
          exact Function.update_self ..
        · exact (Function.update_of_ne hm _ _).trans h.1
    · rw [after, resume_of_lost hd htimedOut hactive]
      exact ⟨Function.update_self .., hactive⟩

theorem sound_run (config : SchedulerConfig) (resourceManager : Option WorkerResourceManager)
    (events : List Event) :
    ((initial resourceManager).run config events).Distinct ∧
      ((initial resourceManager).run config events).Calls := by
  obtain ⟨hd, hc, -⟩ := run_invariant config (fun k => highest config k events)
    (P := fun _ => True) (fun _ _ _ _ => trivial)
    (fun _ _ _ => trivial) (fun k => (le_highest k events).2) (distinct_initial resourceManager)
    (calls_initial resourceManager) trivial
  exact ⟨hd, hc⟩

/-- A ticket is abandoned when its lease is lost, and at no other time. -/
theorem abandoned_run_iff (resourceManager : Option WorkerResourceManager) :
    ((initial resourceManager).run config events).Abandoned n ↔
      Lost config (initial resourceManager) events n := by
  induction events using List.reverseRecOn with
  | nil =>
    refine iff_of_false (fun h => ?_) ?_
    · cases h.1
    · rintro ⟨before, now, later, heq, -⟩
      exact absurd heq (by simp)
  | append_singleton events e ih =>
    obtain ⟨hd, hc⟩ := sound_run config resourceManager events
    rw [run_concat, lost_concat_iff, ← ih]
    exact abandoned_after_iff (fun k => highest config k [e]) hd hc fun k slots he =>
      (le_highest k [e]).2 slots (List.mem_singleton.mpr he.symm)

/-- **Leases and slots, in every state of every run.**  A call that has its lease, or whose
future has it, stands for an active ticket; the call of an active ticket has it, or is
going to clean up, or raised without it; and a queued ticket is what a waiting call waits
for. -/
theorem leases_run (config : SchedulerConfig) (resourceManager : Option WorkerResourceManager)
    (events : List Event) (n : ℕ) :
    let s := (initial resourceManager).run config events
    (s.callers n = .granted ∨ s.callers n = .holding → s.isActive n = true) ∧
      (s.isActive n = true → s.callers n = .granted ∨ s.callers n = .holding ∨
        s.callers n = .timedOut ∨ s.callers n = .interrupted ∨
        Lost config (initial resourceManager) events n) ∧
      (Lost config (initial resourceManager) events n →
        s.callers n = .finished ∧ s.isActive n = true) ∧
      (s.callers n = .waiting → s.isQueued n = true) ∧
      (s.isQueued n = true → s.callers n = .waiting ∨ s.callers n = .timedOut ∨
        s.callers n = .interrupted) := by
  intro s
  obtain ⟨hd, hc⟩ := sound_run config resourceManager events
  refine ⟨hc.lease n, fun hactive => ?_, (abandoned_run_iff resourceManager).mpr, hc.waiting n,
    fun hqueued => ?_⟩
  · cases hcaller : s.callers n with
    | granted => exact .inl rfl
    | holding => exact .inr (.inl rfl)
    | timedOut => exact .inr (.inr (.inl rfl))
    | interrupted => exact .inr (.inr (.inr (.inl rfl)))
    | finished =>
      exact .inr (.inr (.inr (.inr ((abandoned_run_iff resourceManager).mp ⟨hcaller, hactive⟩))))
    | waiting =>
      rw [hd.not_isActive (hc.waiting n hcaller)] at hactive
      cases hactive
    | expired =>
      rw [hc.failed n (.inr (.inl hcaller))] at hactive
      cases hactive
    | cancelled =>
      rw [hc.failed n (.inr (.inr hcaller))] at hactive
      cases hactive
    | absent =>
      rw [hc.failed n (.inl hcaller)] at hactive
      cases hactive
  · obtain ⟨t, ht, rfl⟩ := isQueued_iff.mp hqueued
    exact hc.queued t ht

end WorkerJobScheduler

end AI2Apps.Workers
