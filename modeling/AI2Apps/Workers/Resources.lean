import AI2Apps.Lib.TextOrder
import Mathlib.Algebra.Order.BigOperators.Group.List
import Mathlib.Algebra.Order.Ring.Rat
import Mathlib.Data.Finset.Card

/-!
# Admission of model workers by memory

The reservations, pins and evictions of `worker_resources.py`.  Each call of the sampler
takes the next of the snapshots that the host is going to give.

* `WorkerResourceManager.tryReserve`, `WorkerResourceManager.release`: the reservations.
* `WorkerResourceManager.setPinned`, `evictIdle`, `evicted`: pins and evictions.
* `WorkerResourceManager.tryReserve_cases`: what a reservation can do.
* `WorkerResourceManager.Solvent`: what is reserved was there when it was last admitted.
-/

namespace AI2Apps.Workers

structure WorkerResourceConfig where
  /-- `int(total_bytes * soft_memory_ratio)`. -/
  softCeiling : ℤ → ℤ
  /-- `int(total_bytes * hard_memory_ratio)`. -/
  hardCeiling : ℤ → ℤ
  /-- `int(total_bytes * safety_margin_ratio)`. -/
  safetyShare : ℤ → ℤ
  minSafetyMarginBytes : ℤ
  unknownRequestBytes : ℤ
  admissionWaitSeconds : ℚ
  maxPinnedWorkers : ℕ
  margin_nonneg : 0 ≤ minSafetyMarginBytes
  unknown_pos : 1 ≤ unknownRequestBytes
  wait_pos : 0 < admissionWaitSeconds
  pinned_pos : 1 ≤ maxPinnedWorkers

structure SystemMemorySnapshot where
  totalBytes : ℤ
  availableBytes : ℤ
  usedBytes : ℤ

structure MemoryReservation where
  ticketId : ℕ
  serviceKey : Str
  residentBytes : ℤ
  transientBytes : ℤ

def MemoryReservation.totalBytes (r : MemoryReservation) : ℤ := r.residentBytes + r.transientBytes

structure WorkerResourceManager where
  config : WorkerResourceConfig
  sampler : ℕ → SystemMemorySnapshot
  /-- The snapshots that were taken. -/
  sampled : ℕ
  reservations : List MemoryReservation
  admitted : ℕ
  rejected : ℕ
  peakReservedBytes : ℤ
  pinned : Finset Str
  evicting : Finset Str

/-- A manager that restored some pins. -/
def WorkerResourceManager.initial (config : WorkerResourceConfig)
    (sampler : ℕ → SystemMemorySnapshot) (pinned : Finset Str) : WorkerResourceManager where
  config
  sampler
  sampled := 0
  reservations := []
  admitted := 0
  rejected := 0
  peakReservedBytes := 0
  pinned
  evicting := ∅

/-- An estimate that is positive, or the default. -/
def estimateOr (default : ℤ) : Option ℤ → ℤ
  | some bytes => if 0 < bytes then bytes else default
  | none => default

def WorkerResourceConfig.safetyMargin (config : WorkerResourceConfig)
    (memory : SystemMemorySnapshot) : ℤ :=
  max config.minSafetyMarginBytes (config.safetyShare memory.totalBytes)

/-- What `try_reserve` asks of the snapshot. -/
def WorkerResourceConfig.fits (config : WorkerResourceConfig) (memory : SystemMemorySnapshot)
    (reserved totalEstimate : ℤ) : Bool :=
  let projected := memory.usedBytes + reserved + totalEstimate
  projected ≤ config.softCeiling memory.totalBytes &&
    projected ≤ config.hardCeiling memory.totalBytes &&
    reserved + totalEstimate + config.safetyMargin memory ≤ memory.availableBytes

namespace WorkerResourceManager

def reservedBytes (m : WorkerResourceManager) : ℤ :=
  (m.reservations.map MemoryReservation.totalBytes).sum

/-- `try_reserve`: the reservation of the ticket, an old one or a new one. -/
def tryReserve (m : WorkerResourceManager) (ticketId : ℕ) (serviceKey : Str)
    (estimatedTransientBytes estimatedResidentBytes : Option ℤ) :
    WorkerResourceManager × Option MemoryReservation :=
  match m.reservations.find? fun r => r.ticketId = ticketId with
  | some existing => (m, some existing)
  | none =>
    if serviceKey ∈ m.evicting then ({ m with rejected := m.rejected + 1 }, none)
    else
      let estimate := estimateOr m.config.unknownRequestBytes estimatedTransientBytes
      let residentEstimate := estimateOr 0 estimatedResidentBytes
      let memory := m.sampler m.sampled
      if m.config.fits memory m.reservedBytes (estimate + residentEstimate) then
        let reservation := ⟨ticketId, serviceKey, residentEstimate, estimate⟩
        ({ m with
            sampled := m.sampled + 1
            reservations := m.reservations ++ [reservation]
            admitted := m.admitted + 1
            peakReservedBytes :=
              max m.peakReservedBytes (m.reservedBytes + reservation.totalBytes) },
          some reservation)
      else ({ m with sampled := m.sampled + 1, rejected := m.rejected + 1 }, none)

def release (m : WorkerResourceManager) (ticketId : ℕ) : WorkerResourceManager :=
  { m with reservations := m.reservations.filter fun r => r.ticketId ≠ ticketId }

def activeForWorker (m : WorkerResourceManager) (serviceKey : Str) : ℕ :=
  m.reservations.countP fun r => r.serviceKey = serviceKey

/-- `set_pinned` after `assert_can_pin`, or `none` for its error. -/
def setPinned (m : WorkerResourceManager) (serviceKey : Str) (pinned : Bool) :
    Option WorkerResourceManager :=
  if pinned && serviceKey ∈ m.evicting then none
  else if pinned && serviceKey ∉ m.pinned && m.config.maxPinnedWorkers ≤ m.pinned.card then none
  else if pinned then some { m with pinned := insert serviceKey m.pinned }
  else some { m with pinned := m.pinned.erase serviceKey }

/-- `evict_idle` up to its first suspension, or `none` for `WorkerEvictionBusyError`. -/
def evictIdle (m : WorkerResourceManager) (serviceKey : Str) : Option WorkerResourceManager :=
  if m.activeForWorker serviceKey ≠ 0 || serviceKey ∈ m.pinned || serviceKey ∈ m.evicting then none
  else some { m with evicting := insert serviceKey m.evicting }

/-- The `finally` of `evict_idle`, before it notifies the scheduler. -/
def evicted (m : WorkerResourceManager) (serviceKey : Str) : WorkerResourceManager :=
  { m with evicting := m.evicting.erase serviceKey }

/-! ## What a reservation can do -/

section Reserve

variable {m m' : WorkerResourceManager} {ticketId : ℕ} {serviceKey : Str}
  {transient resident : Option ℤ} {r : MemoryReservation}

/-- The manager after a refusal: nothing is reserved. -/
structure Refusal (m m' : WorkerResourceManager) (serviceKey : Str)
    (transient resident : Option ℤ) : Prop where
  config : m'.config = m.config
  sampler : m'.sampler = m.sampler
  reservations : m'.reservations = m.reservations
  pinned : m'.pinned = m.pinned
  evicting : m'.evicting = m.evicting
  peak : m'.peakReservedBytes = m.peakReservedBytes
  sampled : m.sampled ≤ m'.sampled
  why : serviceKey ∈ m.evicting ∨ m.sampled < m'.sampled ∧ m.config.fits (m.sampler m.sampled)
    m.reservedBytes (estimateOr m.config.unknownRequestBytes transient + estimateOr 0 resident)
      = false

/-- The manager after an admission. -/
structure Admission (m m' : WorkerResourceManager) (r : MemoryReservation) : Prop where
  config : m'.config = m.config
  sampler : m'.sampler = m.sampler
  reservations : m'.reservations = m.reservations ++ [r]
  pinned : m'.pinned = m.pinned
  evicting : m'.evicting = m.evicting
  peak : m'.peakReservedBytes = max m.peakReservedBytes (m.reservedBytes + r.totalBytes)
  sampled : m'.sampled = m.sampled + 1
  available : r.serviceKey ∉ m.evicting
  positive : 0 < r.totalBytes
  fits : m.config.fits (m.sampler m.sampled) m.reservedBytes r.totalBytes = true

theorem estimateOr_nonneg {d : ℤ} (hd : 0 ≤ d) (e : Option ℤ) : 0 ≤ estimateOr d e := by
  cases e with
  | none => exact hd
  | some bytes =>
    show 0 ≤ if 0 < bytes then bytes else d
    split_ifs with h
    · exact h.le
    · exact hd

theorem estimateOr_pos {d : ℤ} (hd : 0 < d) (e : Option ℤ) : 0 < estimateOr d e := by
  cases e with
  | none => exact hd
  | some bytes =>
    show 0 < if 0 < bytes then bytes else d
    split_ifs with h
    · exact h
    · exact hd

/-- **What `try_reserve` does for a ticket that has no reservation.** -/
theorem tryReserve_cases (serviceKey : Str) (transient resident : Option ℤ)
    (hnew : ∀ r ∈ m.reservations, r.ticketId ≠ ticketId) :
    ((m.tryReserve ticketId serviceKey transient resident).2 = none ∧
      Refusal m (m.tryReserve ticketId serviceKey transient resident).1 serviceKey
        transient resident) ∨
    ∃ r, (m.tryReserve ticketId serviceKey transient resident).2 = some r ∧
      r.ticketId = ticketId ∧ r.serviceKey = serviceKey ∧
      Admission m (m.tryReserve ticketId serviceKey transient resident).1 r := by
  have hfind : m.reservations.find? (fun r => r.ticketId = ticketId) = none := by
    rw [List.find?_eq_none]
    intro r hr
    simpa using hnew r hr
  unfold tryReserve
  rw [hfind]
  by_cases hevicting : serviceKey ∈ m.evicting
  · left
    simp only [hevicting, if_true]
    exact ⟨trivial, rfl, rfl, rfl, rfl, rfl, rfl, le_rfl, .inl hevicting⟩
  simp only [hevicting, if_false]
  set estimate := estimateOr m.config.unknownRequestBytes transient with hestimate
  set residentEstimate := estimateOr 0 resident with hresident
  cases hfits : m.config.fits (m.sampler m.sampled) m.reservedBytes
      (estimate + residentEstimate) with
  | false =>
    left
    simp only [Bool.false_eq_true, if_false]
    exact ⟨trivial, rfl, rfl, rfl, rfl, rfl, rfl, Nat.le_succ _,
      .inr ⟨Nat.lt_succ_self _, by rw [← hestimate, ← hresident]; exact hfits⟩⟩
  | true =>
    right
    simp only [if_true]
    refine ⟨⟨ticketId, serviceKey, residentEstimate, estimate⟩, rfl, rfl, rfl, rfl, rfl, rfl,
      rfl, rfl, rfl, rfl, hevicting, ?_, ?_⟩
    · have hpos : 0 < estimate := estimateOr_pos (by have := m.config.unknown_pos; omega) _
      have hnonneg : 0 ≤ residentEstimate := estimateOr_nonneg le_rfl _
      show 0 < residentEstimate + estimate
      omega
    · show m.config.fits _ _ (residentEstimate + estimate) = true
      rw [add_comm]
      exact hfits

end Reserve

/-- Pins and evictions leave the reservations and the samples alone. -/
structure Untouched (m m' : WorkerResourceManager) : Prop where
  config : m'.config = m.config
  sampler : m'.sampler = m.sampler
  sampled : m'.sampled = m.sampled
  reservations : m'.reservations = m.reservations
  peak : m'.peakReservedBytes = m.peakReservedBytes

variable {m m' : WorkerResourceManager} {serviceKey : Str}

theorem untouched_setPinned {pinned : Bool} (hm : m.setPinned serviceKey pinned = some m') :
    Untouched m m' := by
  unfold setPinned at hm
  split_ifs at hm
  · obtain rfl := Option.some_inj.mp hm
    exact ⟨rfl, rfl, rfl, rfl, rfl⟩
  · obtain rfl := Option.some_inj.mp hm
    exact ⟨rfl, rfl, rfl, rfl, rfl⟩

theorem untouched_evictIdle (hm : m.evictIdle serviceKey = some m') : Untouched m m' := by
  unfold evictIdle at hm
  split_ifs at hm
  obtain rfl := Option.some_inj.mp hm
  exact ⟨rfl, rfl, rfl, rfl, rfl⟩

/-- There is room for so much under a snapshot. -/
def Room (config : WorkerResourceConfig) (memory : SystemMemorySnapshot) (bytes : ℤ) : Prop :=
  memory.usedBytes + bytes ≤ config.softCeiling memory.totalBytes ∧
    memory.usedBytes + bytes ≤ config.hardCeiling memory.totalBytes ∧
    bytes + config.safetyMargin memory ≤ memory.availableBytes

theorem fits_iff {config : WorkerResourceConfig} {memory : SystemMemorySnapshot} {a b : ℤ} :
    config.fits memory a b = true ↔ Room config memory (a + b) := by
  simp only [WorkerResourceConfig.fits, Room, Bool.and_eq_true, decide_eq_true_eq, and_assoc,
    add_assoc]

theorem Room.mono {config : WorkerResourceConfig} {memory : SystemMemorySnapshot} {a b : ℤ}
    (h : Room config memory b) (hab : a ≤ b) : Room config memory a := by
  obtain ⟨hsoft, hhard, havailable⟩ := h
  exact ⟨by omega, by omega, by omega⟩

/-- One of the snapshots that were taken had room for so much. -/
def Covered (m : WorkerResourceManager) (bytes : ℤ) : Prop :=
  bytes ≤ 0 ∨ ∃ k < m.sampled, Room m.config (m.sampler k) bytes

/-- The peak is the one of an earlier state, or one of the snapshots taken since had room for
it. -/
structure PeaksFrom (m m' : WorkerResourceManager) : Prop where
  config : m'.config = m.config
  sampler : m'.sampler = m.sampler
  sampled : m.sampled ≤ m'.sampled
  peak : m'.peakReservedBytes = m.peakReservedBytes ∨
    ∃ k, m.sampled ≤ k ∧ k < m'.sampled ∧ Room m.config (m.sampler k) m'.peakReservedBytes

structure Solvent (m : WorkerResourceManager) : Prop where
  positive : ∀ r ∈ m.reservations, 0 < r.totalBytes
  reserved : m.Covered m.reservedBytes
  peak : m.Covered m.peakReservedBytes
  le_peak : m.reservedBytes ≤ m.peakReservedBytes
  available : ∀ r ∈ m.reservations, r.serviceKey ∉ m.evicting
  pinned : Disjoint m.pinned m.evicting

section Solvent

variable {m m' : WorkerResourceManager} {serviceKey : Str} {transient resident : Option ℤ}
  {r : MemoryReservation}

theorem solvent_initial (config : WorkerResourceConfig) (sampler : ℕ → SystemMemorySnapshot)
    (pinned : Finset Str) : (initial config sampler pinned).Solvent where
  positive := by simp [initial]
  reserved := .inl le_rfl
  peak := .inl le_rfl
  le_peak := le_rfl
  available := by simp [initial]
  pinned := Finset.disjoint_empty_right _

theorem Covered.congr {bytes : ℤ} (h : m.Covered bytes) (hconfig : m'.config = m.config)
    (hsampler : m'.sampler = m.sampler) (hsampled : m.sampled ≤ m'.sampled) :
    m'.Covered bytes := by
  rcases h with h | ⟨k, hk, h⟩
  · exact .inl h
  · refine .inr ⟨k, hk.trans_le hsampled, ?_⟩
    rw [hconfig, hsampler]
    exact h

theorem Covered.mono {a b : ℤ} (h : m.Covered b) (hab : a ≤ b) : m.Covered a := by
  rcases h with h | ⟨k, hk, h⟩
  · exact .inl (hab.trans h)
  · exact .inr ⟨k, hk, h.mono hab⟩

theorem PeaksFrom.refl (m : WorkerResourceManager) : PeaksFrom m m := ⟨rfl, rfl, le_rfl, .inl rfl⟩

theorem PeaksFrom.trans {m'' : WorkerResourceManager} (h : PeaksFrom m m') (h' : PeaksFrom m' m'') :
    PeaksFrom m m'' where
  config := h'.config.trans h.config
  sampler := h'.sampler.trans h.sampler
  sampled := h.sampled.trans h'.sampled
  peak := by
    rcases h'.peak with hpeak | ⟨k, hfirst, hlast, hroom⟩
    · rw [hpeak]
      exact h.peak.imp_right fun ⟨k, hfirst, hlast, hroom⟩ => ⟨k, hfirst, hlast.trans_le h'.sampled, hroom⟩
    · rw [h.config, h.sampler] at hroom
      exact .inr ⟨k, h.sampled.trans hfirst, hlast, hroom⟩

theorem Refusal.peaksFrom (h : Refusal m m' serviceKey transient resident) : PeaksFrom m m' :=
  ⟨h.config, h.sampler, h.sampled, .inl h.peak⟩

theorem Untouched.peaksFrom (h : Untouched m m') : PeaksFrom m m' :=
  ⟨h.config, h.sampler, h.sampled.ge, .inl h.peak⟩

/-- An admission that raises the peak has the room that its own snapshot gives. -/
theorem Admission.peaksFrom (h : Admission m m' r) : PeaksFrom m m' where
  config := h.config
  sampler := h.sampler
  sampled := h.sampled ▸ Nat.le_succ _
  peak := by
    rw [h.peak]
    rcases max_choice m.peakReservedBytes (m.reservedBytes + r.totalBytes) with hmax | hmax
    · exact .inl hmax
    · rw [hmax]
      exact .inr ⟨m.sampled, le_rfl, h.sampled ▸ Nat.lt_succ_self _, fits_iff.mp h.fits⟩

theorem Solvent.refusal (h : m.Solvent) (hr : Refusal m m' serviceKey transient resident) :
    m'.Solvent where
  positive := by
    rw [hr.reservations]
    exact h.positive
  reserved := by
    rw [reservedBytes, hr.reservations]
    exact h.reserved.congr hr.config hr.sampler hr.sampled
  peak := by
    rw [hr.peak]
    exact h.peak.congr hr.config hr.sampler hr.sampled
  le_peak := by
    rw [hr.peak, reservedBytes, hr.reservations]
    exact h.le_peak
  available := by
    rw [hr.reservations, hr.evicting]
    exact h.available
  pinned := by
    rw [hr.pinned, hr.evicting]
    exact h.pinned

theorem reservedBytes_admission (ha : Admission m m' r) :
    m'.reservedBytes = m.reservedBytes + r.totalBytes := by
  rw [reservedBytes, ha.reservations, List.map_append, List.sum_append, List.map_singleton,
    List.sum_singleton, reservedBytes]

theorem Solvent.admission (h : m.Solvent) (ha : Admission m m' r) : m'.Solvent := by
  have hroom : m'.Covered (m.reservedBytes + r.totalBytes) := by
    refine .inr ⟨m.sampled, ?_, ?_⟩
    · rw [ha.sampled]
      exact Nat.lt_succ_self _
    · rw [ha.config, ha.sampler]
      exact fits_iff.mp ha.fits
  refine ⟨?_, ?_, ?_, ?_, ?_, ?_⟩
  · rw [ha.reservations]
    intro r' hr'
    rcases List.mem_append.mp hr' with hr' | hr'
    · exact h.positive r' hr'
    · obtain rfl := List.mem_singleton.mp hr'
      exact ha.positive
  · rw [reservedBytes_admission ha]
    exact hroom
  · rw [ha.peak]
    rcases max_choice m.peakReservedBytes (m.reservedBytes + r.totalBytes) with hmax | hmax
    · rw [hmax]
      exact h.peak.congr ha.config ha.sampler (by rw [ha.sampled]; exact Nat.le_succ _)
    · rw [hmax]
      exact hroom
  · rw [ha.peak, reservedBytes_admission ha]
    exact le_max_right _ _
  · rw [ha.reservations, ha.evicting]
    intro r' hr'
    rcases List.mem_append.mp hr' with hr' | hr'
    · exact h.available r' hr'
    · obtain rfl := List.mem_singleton.mp hr'
      exact ha.available
  · rw [ha.pinned, ha.evicting]
    exact h.pinned

theorem reservedBytes_release_le (h : m.Solvent) (n : ℕ) :
    (m.release n).reservedBytes ≤ m.reservedBytes := by
  refine List.Sublist.sum_le_sum (List.filter_sublist.map _) fun b hb => ?_
  obtain ⟨r, hr, rfl⟩ := List.mem_map.mp hb
  exact (h.positive r hr).le

theorem Solvent.release (h : m.Solvent) (n : ℕ) : (m.release n).Solvent where
  positive r hr := h.positive r (List.mem_filter.mp hr).1
  reserved := (h.reserved.mono (reservedBytes_release_le h n)).congr rfl rfl le_rfl
  peak := h.peak.congr rfl rfl le_rfl
  le_peak := (reservedBytes_release_le h n).trans h.le_peak
  available r hr := h.available r (List.mem_filter.mp hr).1
  pinned := h.pinned

theorem Solvent.setPinned {pinned : Bool} (h : m.Solvent)
    (hm : m.setPinned serviceKey pinned = some m') : m'.Solvent := by
  unfold WorkerResourceManager.setPinned at hm
  cases pinned with
  | false =>
    simp only [Bool.false_and, Bool.false_eq_true, if_false, Option.some_inj] at hm
    subst hm
    exact ⟨h.positive, h.reserved, h.peak, h.le_peak, h.available,
      h.pinned.mono_left (Finset.erase_subset _ _)⟩
  | true =>
    simp only [Bool.true_and, decide_eq_true_eq, if_true] at hm
    split_ifs at hm with hevicting hfull
    obtain rfl := Option.some_inj.mp hm
    exact ⟨h.positive, h.reserved, h.peak, h.le_peak, h.available,
      Finset.disjoint_insert_left.mpr ⟨hevicting, h.pinned⟩⟩

theorem Solvent.evictIdle (h : m.Solvent) (hm : m.evictIdle serviceKey = some m') :
    m'.Solvent := by
  unfold WorkerResourceManager.evictIdle at hm
  simp only [Bool.or_eq_true, decide_eq_true_eq] at hm
  split_ifs at hm with hbusy
  obtain rfl := Option.some_inj.mp hm
  obtain ⟨⟨hidle, hpinned⟩, -⟩ := not_or.mp hbusy |>.imp_left not_or.mp
  have hfree : ∀ r ∈ m.reservations, r.serviceKey ≠ serviceKey := by
    have hcount := not_not.mp hidle
    rw [activeForWorker, List.countP_eq_zero] at hcount
    intro r hr
    simpa using hcount r hr
  refine ⟨h.positive, h.reserved, h.peak, h.le_peak, fun r hr hmem => ?_, ?_⟩
  · rcases Finset.mem_insert.mp hmem with hkey | hmem
    · exact hfree r hr hkey
    · exact h.available r hr hmem
  · exact Finset.disjoint_insert_right.mpr ⟨hpinned, h.pinned⟩

theorem Solvent.evicted (h : m.Solvent) (serviceKey : Str) : (m.evicted serviceKey).Solvent where
  positive := h.positive
  reserved := h.reserved.congr rfl rfl le_rfl
  peak := h.peak.congr rfl rfl le_rfl
  le_peak := h.le_peak
  available r hr hmem := h.available r hr (Finset.mem_of_mem_erase hmem)
  pinned := h.pinned.mono_right (Finset.erase_subset _ _)

end Solvent

end WorkerResourceManager

end AI2Apps.Workers
