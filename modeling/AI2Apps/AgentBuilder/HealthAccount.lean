import AI2Apps.AgentBuilder.Health
import Mathlib.Data.Finset.Card

/-!
# What the health of a capability is to be measured against

A ledger beside the rows notes which runs of a capability were recorded, which of
them failed since the last success or repair, and until when an opened circuit is
to stay open.  A row is accounted for when its counters are the sizes of those sets
and the circuit rejects until then.

A row remembers one run only, the last; and every failure of another class than a
structural one takes an open circuit back.  Away from these two the rows stay
accounted for in every history.

* `Ledger.after`: the ledger after an event.
* `Accounted`: the rows agree with the ledger.
* `Fair`: a notification that is neither of the two.
* `health_accounted`: over whole histories; `unfair_breaks` says what the others do.
-/

namespace AI2Apps.AgentBuilder

open Clock Faults
open Agents (Run RunStatus)

/-! ## Histories -/

/-- What happens to the rows. -/
inductive Event where
  | terminal (now : DateTime) (commitState write : Option Error) (run : Run)
  | createRepair (now : DateTime) (write : Option Error) (key : HealthKey)
  | activateRepair (now : DateTime) (write : Option Error) (key : HealthKey)

/-- The runs of one capability, as they are to be counted. -/
structure Tally where
  seen : Finset Str
  failing : Finset Str
  openUntil : Option DateTime

def Tally.empty : Tally := ⟨∅, ∅, none⟩

/-- An opened circuit, once its time has passed. -/
def Tally.atTime (now : DateTime) (t : Tally) : Tally :=
  { t with openUntil := t.openUntil.filter fun u => now.micros < u.micros }

/-- A run counts when it is recorded first. -/
def Tally.count (run : Run) (t : Tally) : Tally :=
  if run.id ∈ t.seen then t
  else if run.status = .completed then
    { seen := insert run.id t.seen, failing := ∅, openUntil := none }
  else { t with seen := insert run.id t.seen, failing := insert run.id t.failing }

/-- The later of two times. -/
def later (a b : DateTime) : DateTime := if a.micros < b.micros then b else a

/-- A row that shows a circuit has opened it. -/
def Tally.observe (row : Health) (t : Tally) : Tally :=
  match row.circuitOpenUntil with
  | none => t
  | some u => { t with openUntil := some (t.openUntil.elim u (later u)) }

/-- A repair starts the failures anew and closes the circuit. -/
def Tally.repaired (t : Tally) : Tally := { t with failing := ∅, openUntil := none }

abbrev Ledger := HealthKey → Tally

structure System where
  healths : Healths
  ledger : Ledger

def System.initial : System := ⟨Table.empty, fun _ => .empty⟩

/-- The ledger after a notification that returned a row. -/
def Ledger.recorded (now : DateTime) (run : Run) (ledger : Ledger) : Option Health → Ledger
  | none => ledger
  | some row => Function.update ledger row.key
      ((((ledger row.key).atTime now).count run).observe row)

def System.after (env : Env) (s : System) : Event → System
  | .terminal now commitState write run =>
    match (recordTerminalRun env now commitState write run).run s.healths with
    | .ok row healths => ⟨healths, s.ledger.recorded now run row⟩
    | .error _ healths => ⟨healths, s.ledger⟩
  | .createRepair now write key => ⟨final (createRepairHealth now write key) s.healths, s.ledger⟩
  | .activateRepair now write key =>
    match (activateRepairHealth now write key).run s.healths with
    | .ok _ healths => ⟨healths, Function.update s.ledger key (s.ledger key).repaired⟩
    | .error _ healths => ⟨healths, s.ledger⟩

/-- The system after a history. -/
def System.run (env : Env) : System → List Event → System
  | s, [] => s
  | s, event :: events => (s.after env event).run env events

/-! ## The law -/

/-- A row agrees with the tally of its capability. -/
structure RowAccounted (row : Option Health) (t : Tally) : Prop where
  counted : (row.elim 0 fun h => h.successCount + h.failureCount) = t.seen.card
  consecutive : row.elim 0 Health.consecutiveFailures = t.failing.card

/-- **The law**: the counters are the numbers of runs, and an opened circuit rejects. -/
structure Accounted (s : System) : Prop where
  rows : ∀ key, RowAccounted (s.healths.get? key) (s.ledger key)
  closed : ∀ key u, (s.ledger key).openUntil = some u → ∀ now : DateTime, now.micros < u.micros →
    ∃ message, requireCircuitClosed now key s.healths = .error (.conflict message)

/-- A notification the row can take: of a run recorded before only while it is the last,
and of a failure while the circuit is open only if it leaves it open as long. -/
def Event.Fair (env : Env) (s : System) : Event → Prop
  | .terminal now _ _ run => ∀ key, runKey env run = some key →
    (run.id ∈ (s.ledger key).seen →
      (s.healths.get? key).bind Health.lastRunId = some run.id) ∧
    (run.id ∉ (s.ledger key).seen → run.status ≠ .completed →
      ∀ u, (s.ledger key).openUntil = some u → now.micros < u.micros →
        classifyFailure env run.error = .structural ∧ u.micros ≤ now.micros + circuitCooldown)
  | _ => True

/-- Every event of the history is fair where it happens. -/
def FairRun (env : Env) : System → List Event → Prop
  | _, [] => True
  | s, event :: events => event.Fair env s ∧ FairRun env (s.after env event) events

/-! ## One row -/

/-- What every history keeps of a row and its tally. -/
structure RowTracked (row : Option Health) (t : Tally) : Prop extends RowAccounted row t where
  failing : t.failing ⊆ t.seen
  last : ∀ id, row.bind Health.lastRunId = some id → id ∈ t.seen
  shown : ∀ v, row.bind Health.circuitOpenUntil = some v →
    circuitFailures ≤ row.elim 0 Health.consecutiveFailures
  opened : ∀ u, t.openUntil = some u →
    ∃ v, row.bind Health.circuitOpenUntil = some v ∧ u.micros ≤ v.micros

section Rows

variable {env : Env} {now : DateTime} {run : Run} {row : Option Health} {t : Tally}

theorem rowTracked_empty : RowTracked none .empty where
  counted := rfl
  consecutive := rfl
  failing := Finset.Subset.refl _
  last := nofun
  shown := nofun
  opened := nofun

/-- Letting time pass asks for less. -/
theorem RowTracked.atTime (h : RowTracked row t) (now : DateTime) : RowTracked row (t.atTime now) where
  counted := h.counted
  consecutive := h.consecutive
  failing := h.failing
  last := h.last
  shown := h.shown
  opened := fun u hu => h.opened u (Option.filter_eq_some_iff.mp hu).1

theorem openUntil_atTime {u : DateTime} (h : (t.atTime now).openUntil = some u) :
    t.openUntil = some u ∧ now.micros < u.micros := by
  obtain ⟨hopen, hnow⟩ := Option.filter_eq_some_iff.mp h
  exact ⟨hopen, by simpa using hnow⟩

/-- A row stays tracked when the ledger notes the circuit it shows. -/
theorem RowTracked.observe {r : Health} (h : RowTracked (some r) t) :
    RowTracked (some r) (t.observe r) := by
  unfold Tally.observe
  cases hcircuit : r.circuitOpenUntil with
  | none => exact h
  | some v =>
    refine ⟨⟨h.counted, h.consecutive⟩, h.failing, h.last, h.shown, fun u hu => ⟨v, hcircuit, ?_⟩⟩
    obtain rfl := Option.some.inj hu
    cases hopen : t.openUntil with
    | none => exact Nat.le_refl _
    | some w =>
      obtain ⟨v', hv', hle⟩ := h.opened w hopen
      obtain rfl : v = v' := Option.some.inj (hcircuit.symm.trans hv')
      show (later v w).micros ≤ v.micros
      unfold later
      split
      · exact hle
      · exact Nat.le_refl _

/-- The last run recorded does not count again. -/
theorem RowTracked.count_of_last (h : RowTracked row t) (hlast : row.bind Health.lastRunId = some run.id) :
    t.count run = t := by
  unfold Tally.count
  rw [if_pos (h.last _ hlast)]

/-- **A run that was not recorded before** is counted once on both sides. -/
theorem RowTracked.recorded {key : HealthKey} {fingerprint : Str}
    {v : AgentHealthStatus × Option DateTime} (h : RowTracked row t) (hnew : run.id ∉ t.seen)
    (hverdict : verdict now (if run.status = .completed then 0
      else (row.getD (.blank key now)).consecutiveFailures + 1) (runFailure env run) = some v)
    (hfair : run.status ≠ .completed → ∀ u, t.openUntil = some u →
      classifyFailure env run.error = .structural ∧ u.micros ≤ now.micros + circuitCooldown) :
    RowTracked (some ((row.getD (.blank key now)).recorded env now run fingerprint v))
      (t.count run) := by
  have hbase : (row.getD (.blank key now)).consecutiveFailures = t.failing.card ∧
      (row.getD (.blank key now)).successCount + (row.getD (.blank key now)).failureCount
        = t.seen.card := by
    have hcounted := h.counted
    have hconsecutive := h.consecutive
    cases row with
    | none => exact ⟨hconsecutive, hcounted⟩
    | some r => exact ⟨hconsecutive, hcounted⟩
  obtain ⟨hconsecutive, hcounted⟩ := hbase
  generalize row.getD (.blank key now) = r at hverdict hconsecutive hcounted ⊢
  unfold Tally.count
  rw [if_neg hnew]
  by_cases hdone : run.status = .completed
  · rw [if_pos hdone] at hverdict ⊢
    have hv : v = (.healthy, none) := by
      rw [runFailure, if_pos hdone] at hverdict
      exact (Option.some.inj hverdict).symm
    subst hv
    refine ⟨⟨?_, ?_⟩, Finset.empty_subset _, ?_, nofun, nofun⟩
    · show r.successCount + (if run.status = .completed then 1 else 0) +
        (r.failureCount + if run.status = .completed then 0 else 1) = _
      rw [if_pos hdone, if_pos hdone, Finset.card_insert_of_notMem hnew]
      omega
    · show (if run.status = .completed then 0 else r.consecutiveFailures + 1) = _
      rw [if_pos hdone]
      rfl
    · intro id hid
      obtain rfl : run.id = id := Option.some.inj hid
      exact Finset.mem_insert_self _ _
  · rw [if_neg hdone] at hverdict ⊢
    have hfresh : run.id ∉ t.failing := fun hmem => hnew (h.failing hmem)
    have hfailures : (r.recorded env now run fingerprint v).consecutiveFailures =
        t.failing.card + 1 := by
      show (if run.status = .completed then 0 else r.consecutiveFailures + 1) = _
      rw [if_neg hdone, hconsecutive]
    rw [runFailure, if_neg hdone] at hverdict
    refine ⟨⟨?_, ?_⟩, Finset.insert_subset_insert _ h.failing, ?_, ?_, ?_⟩
    · show r.successCount + (if run.status = .completed then 1 else 0) +
        (r.failureCount + if run.status = .completed then 0 else 1) = _
      rw [if_neg hdone, if_neg hdone, Finset.card_insert_of_notMem hnew]
      omega
    · exact hfailures.trans (Finset.card_insert_of_notMem hfresh).symm
    · intro id hid
      obtain rfl : run.id = id := Option.some.inj hid
      exact Finset.mem_insert_self _ _
    · -- only a structural failure shows a circuit, from the third on
      intro u hu
      show circuitFailures ≤ (r.recorded env now run fingerprint v).consecutiveFailures
      rw [hfailures, ← hconsecutive]
      exact (circuit_of_verdict hverdict hu).2.1
    · intro u hu
      obtain ⟨hclass, hle⟩ := hfair hdone u hu
      have hcount : circuitFailures ≤ r.consecutiveFailures + 1 := by
        obtain ⟨w, hw, -⟩ := h.opened u hu
        have := h.shown w hw
        rw [h.consecutive, ← hconsecutive] at this
        omega
      rw [hclass] at hverdict
      obtain ⟨w, hw⟩ := verdict_structural hcount hverdict
      refine ⟨w, hw, ?_⟩
      rw [(circuit_of_verdict hverdict hw).2.2]
      exact hle

/-- An activated repair starts both sides anew. -/
theorem RowTracked.repaired (h : RowTracked row t) {f : Health → Health}
    (hf : ∀ r, (f r).consecutiveFailures = 0 ∧ (f r).circuitOpenUntil = none ∧
      (f r).successCount = r.successCount ∧ (f r).failureCount = r.failureCount ∧
      (f r).lastRunId = r.lastRunId) :
    RowTracked (row.map f) t.repaired := by
  have hcounted := h.counted
  have hlast := h.last
  cases row with
  | none =>
    exact ⟨⟨hcounted, rfl⟩, Finset.empty_subset _, hlast, nofun, nofun⟩
  | some r =>
    obtain ⟨hzero, hclosed, hs, hn, hid⟩ := hf r
    refine ⟨⟨?_, hzero⟩, Finset.empty_subset _, fun id h => hlast id ?_, fun v hv => ?_,
      nofun⟩
    · show (f r).successCount + (f r).failureCount = t.seen.card
      rw [hs, hn]
      exact hcounted
    · exact hid.symm.trans h
    · exact absurd (hclosed.symm.trans hv) (by simp)

end Rows

/-! ## Whole histories -/

/-- Every row is tracked. -/
def Tracked (s : System) : Prop := ∀ key, RowTracked (s.healths.get? key) (s.ledger key)

theorem requireCircuitClosed_of_lt {healths : Healths} {key : HealthKey} {now v : DateTime}
    (h : (healths.get? key).bind Health.circuitOpenUntil = some v) (hv : now.micros < v.micros) :
    ∃ message, requireCircuitClosed now key healths = .error (.conflict message) := by
  unfold requireCircuitClosed
  rw [h]
  dsimp only
  rw [if_pos hv]
  exact ⟨_, rfl⟩

theorem requireCircuitClosed_of_le {healths : Healths} {key : HealthKey} {now : DateTime}
    (h : ∀ v, (healths.get? key).bind Health.circuitOpenUntil = some v → v.micros ≤ now.micros) :
    requireCircuitClosed now key healths = .ok () := by
  unfold requireCircuitClosed
  cases hv : (healths.get? key).bind Health.circuitOpenUntil with
  | none => rfl
  | some v => exact if_neg (Nat.not_lt.mpr (h v hv))

theorem Tracked.accounted {s : System} (h : Tracked s) : Accounted s where
  rows := fun key => (h key).toRowAccounted
  closed := fun key u hu now hnow => by
    obtain ⟨v, hv, hle⟩ := (h key).opened u hu
    exact requireCircuitClosed_of_lt hv (Nat.lt_of_lt_of_le hnow hle)

theorem tracked_initial : Tracked .initial := fun _ => rowTracked_empty

section Steps

variable {env : Env} {s : System}

section Terminal

variable {now : DateTime} {commitState write : Option Error} {run : Run} {healths : Healths}

theorem after_terminal_ok {out : Option Health}
    (h : (recordTerminalRun env now commitState write run).run s.healths = .ok out healths) :
    s.after env (.terminal now commitState write run) =
      ⟨healths, s.ledger.recorded now run out⟩ := by
  unfold System.after
  dsimp only
  rw [h]

theorem after_terminal_error {e : Error}
    (h : (recordTerminalRun env now commitState write run).run s.healths = .error e healths) :
    s.after env (.terminal now commitState write run) = ⟨healths, s.ledger⟩ := by
  unfold System.after
  dsimp only
  rw [h]

end Terminal

variable {key : HealthKey} {now : DateTime} {healths : Healths} {write : Option Error}

/-- One row and its tally change together. -/
theorem Tracked.update {row : Health} {healths' : Healths} {t : Tally} (h : Tracked s)
    (hwrites : Writes s.healths key row healths') (ht : RowTracked (some row) t) :
    Tracked ⟨healths', Function.update s.ledger key t⟩ := by
  intro k
  by_cases hk : key = k
  · subst hk
    show RowTracked (healths'.get? key) (Function.update s.ledger key t key)
    rw [hwrites.get?, Function.update_self]
    exact ht
  · show RowTracked (healths'.get? k) (Function.update s.ledger key t k)
    rw [hwrites.get?_of_ne hk, Function.update_of_ne (Ne.symm hk)]
    exact h k

theorem rowOf_key :
    (rowOf healths key now).key = key := by
  unfold rowOf
  cases hrow : healths.get? key with
  | none => rfl
  | some row => exact Table.key_of_get? hrow

theorem Recorded.key_eq {run : Run} {healths' : Healths} {row : Health}
    (h : Recorded env now run key healths row healths') : row.key = key := by
  obtain ⟨fingerprint, v, rfl, -⟩ := h.row
  exact rowOf_key

/-- **A fair notification** leaves every row tracked. -/
theorem Tracked.terminal {commitState : Option Error} {run : Run} (h : Tracked s)
    (hfair : (Event.terminal now commitState write run).Fair env s) :
    Tracked (s.after env (.terminal now commitState write run)) := by
  have hspec := @recordTerminalRun_spec env now s.healths run commitState write
  cases hrun : (recordTerminalRun env now commitState write run).run s.healths with
  | error e healths =>
    rw [after_terminal_error hrun]
    rw [wp_of_error hrun] at hspec
    subst hspec
    exact h
  | ok out healths =>
    rw [after_terminal_ok hrun]
    rw [wp_of_ok hrun] at hspec
    rcases hspec with ⟨-, rfl, rfl⟩ | ⟨key, row, hkey, rfl, hrow, hlast, rfl⟩ |
      ⟨key, row, hkey, rfl, hlast, hrecorded⟩
    · exact h
    · -- the last run recorded, once more
      have hrowkey : row.key = key := Table.key_of_get? hrow
      have ht : RowTracked (some row) ((s.ledger key).atTime now) := by
        rw [← hrow]
        exact (h key).atTime now
      have hwrites : Writes s.healths key row s.healths := by
        intro k
        split_ifs with hk
        · rw [← hk, hrow]
        · rfl
      dsimp only [Ledger.recorded]
      rw [hrowkey]
      refine h.update hwrites (RowTracked.observe ?_)
      rw [ht.count_of_last hlast]
      exact ht
    · obtain ⟨hseen, hopen⟩ := hfair key hkey
      have hnew : run.id ∉ (s.ledger key).seen := fun hmem => hlast (hseen hmem)
      dsimp only [Ledger.recorded]
      rw [hrecorded.key_eq]
      refine h.update hrecorded.writes (RowTracked.observe ?_)
      obtain ⟨fingerprint, v, rfl, hverdict⟩ := hrecorded.row
      refine ((h key).atTime now).recorded hnew hverdict fun hstatus u hu => ?_
      obtain ⟨hu, hnow⟩ := openUntil_atTime hu
      exact hopen hnew hstatus u hu hnow

/-- A row that a repair marks, or makes, counts as before. -/
theorem Tracked.repairing (h : Tracked s) (hw : Writes s.healths key
      { rowOf s.healths key now with status := .repairing, updatedAt := now } healths) :
    Tracked ⟨healths, s.ledger⟩ := by
  intro k
  by_cases hk : key = k
  · subst hk
    show RowTracked (healths.get? key) (s.ledger key)
    have ht := h key
    rw [hw.get?]
    unfold rowOf
    cases hrow : s.healths.get? key with
    | none =>
      rw [hrow] at ht
      exact ⟨⟨ht.counted, ht.consecutive⟩, ht.failing, nofun, nofun,
        fun u hu => (ht.opened u hu).elim fun _ hv => nomatch hv.1⟩
    | some row =>
      rw [hrow] at ht
      exact ⟨⟨ht.counted, ht.consecutive⟩, ht.failing, ht.last, ht.shown, ht.opened⟩
  · show RowTracked (healths.get? k) (s.ledger k)
    rw [hw.get?_of_ne hk]
    exact h k

theorem Tracked.createRepair (h : Tracked s) : Tracked (s.after env (.createRepair now write key)) := by
  have hspec := @createRepairHealth_spec now key s.healths write
  have hwp : wp (createRepairHealth now write key)
      (fun _ healths => Tracked ⟨healths, s.ledger⟩) (fun _ healths => Tracked ⟨healths, s.ledger⟩)
      s.healths := by
    refine wp_mono hspec (fun _ healths hw k => ?_) fun _ healths hw => ?_
    · exact h.repairing hw k
    · rw [hw]
      exact h
  exact wp_final.mp hwp

theorem Tracked.activateRepair (h : Tracked s) : Tracked (s.after env (.activateRepair now write key)) := by
  have hspec := @activateRepairHealth_spec now key s.healths write
  unfold System.after
  dsimp only
  cases hrun : (activateRepairHealth now write key).run s.healths with
  | error e healths =>
    rw [wp_of_error hrun] at hspec
    subst hspec
    exact h
  | ok _ healths =>
    rw [wp_of_ok hrun] at hspec
    intro k
    show RowTracked (healths.get? k) (Function.update s.ledger key (s.ledger key).repaired k)
    rw [hspec k]
    by_cases hk : key = k
    · subst hk
      rw [Function.update_self]
      refine (h key).repaired fun r => ?_
      rw [if_pos rfl]
      exact ⟨rfl, rfl, rfl, rfl, rfl⟩
    · rw [Function.update_of_ne (Ne.symm hk)]
      simp only [if_neg hk, Option.map_id']
      exact h k

theorem Tracked.after {event : Event} (h : Tracked s) (hfair : event.Fair env s) :
    Tracked (s.after env event) := by
  cases event with
  | terminal now commitState write run => exact h.terminal hfair
  | createRepair now write key => exact h.createRepair
  | activateRepair now write key => exact h.activateRepair

theorem Tracked.run {events : List Event} (h : Tracked s) (hfair : FairRun env s events) :
    Tracked (s.run env events) := by
  induction events generalizing s with
  | nil => exact h
  | cons event events ih => exact ih (h.after hfair.1) hfair.2

end Steps

/-! ## What the other notifications do -/

section Unfair

variable {env : Env} {s : System} {now : DateTime} {run : Run} {key : HealthKey} {row : Health}
  {healths : Healths}

/-- A run that was recorded before, but is not the last, is counted twice. -/
theorem Tracked.counted_twice (h : Tracked s)
    (hrecorded : Recorded env now run key s.healths row healths)
    (hseen : run.id ∈ (s.ledger key).seen) :
    ¬ Accounted ⟨healths, s.ledger.recorded now run (some row)⟩ := by
  intro hlaw
  have hcounted := (hlaw.rows key).counted
  have hbefore := (h key).counted
  have hcard : ((Ledger.recorded now run s.ledger (some row)) key).seen = (s.ledger key).seen := by
    unfold Ledger.recorded
    dsimp only
    rw [hrecorded.key_eq, Function.update_self]
    unfold Tally.observe Tally.count Tally.atTime
    split <;> simp only [if_pos hseen]
  rw [hcard, hrecorded.writes.get?, ← hbefore] at hcounted
  obtain ⟨fingerprint, v, rfl, -⟩ := hrecorded.row
  have hsum : (rowOf s.healths key now).successCount + (if run.status = .completed then 1 else 0) +
      ((rowOf s.healths key now).failureCount + if run.status = .completed then 0 else 1) =
      (s.healths.get? key).elim 0 fun h => h.successCount + h.failureCount := hcounted
  have hrow : ((s.healths.get? key).elim 0 fun h => h.successCount + h.failureCount) =
      (rowOf s.healths key now).successCount + (rowOf s.healths key now).failureCount := by
    unfold rowOf
    cases s.healths.get? key <;> rfl
  rw [hrow] at hsum
  split_ifs at hsum <;> omega

/-- A failure that takes an open circuit back, or leaves it open for less time. -/
theorem Tracked.circuit_lost {u : DateTime}
    (hrecorded : Recorded env now run key s.healths row healths)
    (hnew : run.id ∉ (s.ledger key).seen) (hfailed : run.status ≠ .completed)
    (hopen : (s.ledger key).openUntil = some u) (hnow : now.micros < u.micros)
    (hharm : ¬ (classifyFailure env run.error = .structural ∧
      u.micros ≤ now.micros + circuitCooldown)) :
    ¬ Accounted ⟨healths, s.ledger.recorded now run (some row)⟩ := by
  intro hlaw
  have hcount : (((s.ledger key).atTime now).count run).openUntil = some u := by
    have hkept : run.id ∉ ((s.ledger key).atTime now).seen := hnew
    unfold Tally.count
    rw [if_neg hkept, if_neg hfailed]
    exact Option.filter_eq_some_iff.mpr ⟨hopen, by simpa using hnow⟩
  have hledger : Ledger.recorded now run s.ledger (some row) key =
      ((((s.ledger key).atTime now).count run).observe row) := by
    unfold Ledger.recorded
    dsimp only
    rw [hrecorded.key_eq, Function.update_self]
  have hclosed := hlaw.closed key
  rw [show (System.mk healths (s.ledger.recorded now run (some row))).ledger key = _ from hledger]
    at hclosed
  have hcircuit : (healths.get? key).bind Health.circuitOpenUntil = row.circuitOpenUntil := by
    rw [hrecorded.writes.get?]
    rfl
  unfold Tally.observe at hclosed
  cases hrow : row.circuitOpenUntil with
  | none =>
    rw [hrow] at hclosed hcircuit
    obtain ⟨message, hrejects⟩ := hclosed u hcount now hnow
    rw [requireCircuitClosed_of_le fun v hv => nomatch hcircuit.symm.trans hv] at hrejects
    exact nomatch hrejects
  | some v =>
    rw [hrow] at hclosed hcircuit
    have hlt : v.micros < u.micros := by
      obtain ⟨fingerprint, w, rfl, hverdict⟩ := hrecorded.row
      rw [runFailure, if_neg hfailed, if_neg hfailed] at hverdict
      obtain ⟨hclass, -, hv⟩ := circuit_of_verdict hverdict hrow
      rw [hv]
      exact Nat.lt_of_not_le fun hle => hharm ⟨Option.some.inj hclass, hle⟩
    have hlater : (some u).elim v (later v) = u := if_pos hlt
    have hkept : some ((((s.ledger key).atTime now).count run).openUntil.elim v (later v)) =
        some u := by
      rw [hcount, hlater]
    obtain ⟨message, hrejects⟩ := hclosed u hkept v hlt
    rw [requireCircuitClosed_of_le fun w hw => ?_] at hrejects
    · exact nomatch hrejects
    · obtain rfl : v = w := Option.some.inj (hcircuit.symm.trans hw)
      exact Nat.le_refl _

end Unfair

/-- **Only fair notifications keep the law**: any other that returns a row breaks it. -/
theorem unfair_breaks {env : Env} {s : System} (h : Tracked s) {now : DateTime}
    {commitState write : Option Error} {run : Run} {row : Health} {healths : Healths}
    (hrun : (recordTerminalRun env now commitState write run).run s.healths =
      .ok (some row) healths)
    (hunfair : ¬ (Event.terminal now commitState write run).Fair env s) :
    ¬ Accounted (s.after env (.terminal now commitState write run)) := by
  rw [after_terminal_ok hrun]
  have hspec := @recordTerminalRun_spec env now s.healths run commitState write
  rw [wp_of_ok hrun] at hspec
  rcases hspec with ⟨-, hnone, -⟩ | ⟨key, r, hkey, -, hrow, hlast, -⟩ |
    ⟨key, r, hkey, hr, hlast, hrecorded⟩
  · exact nomatch hnone
  · -- the last run again is fair
    have hbound : (s.healths.get? key).bind Health.lastRunId = some run.id := by
      rw [hrow]
      exact hlast
    refine absurd (fun k hk => ?_) hunfair
    obtain rfl : key = k := Option.some.inj (hkey.symm.trans hk)
    exact ⟨fun _ => hbound, fun hnew => absurd ((h key).last _ hbound) hnew⟩
  · obtain rfl : row = r := Option.some.inj hr
    by_cases hseen : run.id ∈ (s.ledger key).seen
    · exact h.counted_twice hrecorded hseen
    · by_contra hlaw
      refine hunfair fun k hk => ?_
      obtain rfl : key = k := Option.some.inj (hkey.symm.trans hk)
      refine ⟨fun hmem => absurd hmem hseen, fun hnew hfailed u hu hnow => ?_⟩
      by_contra hharm
      exact Tracked.circuit_lost hrecorded hnew hfailed hu hnow hharm hlaw

/-- **Health is accounted for** in every history of fair notifications and repairs, at its
end and so at each of its points. -/
theorem health_accounted (env : Env) (events : List Event)
    (hfair : FairRun env .initial events) : Accounted (System.initial.run env events) :=
  (tracked_initial.run hfair).accounted

/-! ## Runs that are notified out of turn -/

/-- A run of the draft's capability, started by nobody's parent. -/
def sampleRun (id : Str) (status : RunStatus) (code : Str) : Run where
  id := id
  agentDefinitionId := str "definition"
  sessionId := str "session"
  parentRunId := none
  rootRunId := id
  depth := 0
  delegation := []
  status := status
  idempotencyKey := none
  priority := 0
  input := [(str "parameters", .obj [(str "draft_id", .str (str "draft")),
    (str "generation_id", .str (str "generation")), (str "owner_user_id", .str (str "owner"))])]
  output := none
  error := some [(str "code", .str code)]
  grantedCapabilities := []
  currentStep := 0
  cancelRequested := false
  deadlineAt := ⟨0, DateTime.zero_inRange⟩
  createdAt := ⟨0, DateTime.zero_inRange⟩
  updatedAt := ⟨0, DateTime.zero_inRange⟩
  startedAt := none
  finishedAt := none

def sampleKey : HealthKey := ⟨str "owner", str "draft", str "site.run"⟩

/-- Texts are printed and digested as nothing: no sample needs either. -/
def sampleEnv : Env := ⟨fun _ => [], fun _ => some []⟩

/-- A notification at midnight of the first day, without a fault. -/
def notified (run : Run) : Event := .terminal ⟨0, DateTime.zero_inRange⟩ none none run

/-- A cancelled run, another one that fails before the first one's task is done, and the
first one again. -/
def overtaken : List Event := [
  notified (sampleRun (str "a") .cancelled (str "run_cancelled")),
  notified (sampleRun (str "b") .failed (str "network_error")),
  notified (sampleRun (str "a") .cancelled (str "run_cancelled"))]

/-- Three structural failures open the circuit, and a run that was under way fails for
another reason. -/
def tooLate : List Event := [
  notified (sampleRun (str "a") .failed (str "selector_not_found")),
  notified (sampleRun (str "b") .failed (str "selector_not_found")),
  notified (sampleRun (str "c") .failed (str "selector_not_found")),
  notified (sampleRun (str "d") .failed (str "network_error"))]

/-- **Two runs count as three, and an open circuit is closed by a failure.** -/
theorem health_miscounted :
    ¬ Accounted (System.initial.run sampleEnv overtaken) ∧
    ¬ Accounted (System.initial.run sampleEnv tooLate) := by
  constructor
  · intro h
    exact absurd (h.rows sampleKey).counted (by decide +kernel)
  · intro h
    obtain ⟨message, hrejects⟩ := h.closed sampleKey ⟨circuitCooldown, by decide⟩
      (by decide +kernel) ⟨0, DateTime.zero_inRange⟩ (by decide)
    have haccepts : (requireCircuitClosed ⟨0, DateTime.zero_inRange⟩ sampleKey
        (System.initial.run sampleEnv tooLate).healths).isOk = true := by decide +kernel
    rw [hrejects] at haccepts
    exact nomatch haccepts

/-- Three structural failures, the last of them notified twice. -/
def lastTwice : List Event := [
  notified (sampleRun (str "a") .failed (str "selector_not_found")),
  notified (sampleRun (str "b") .failed (str "selector_not_found")),
  notified (sampleRun (str "c") .failed (str "selector_not_found")),
  notified (sampleRun (str "c") .failed (str "selector_not_found"))]

/-- A sample is fair while no circuit is open, and where it is the last run again. -/
theorem fair_notified {s : System} {run : Run} (hkey : runKey sampleEnv run = some sampleKey)
    (hlast : run.id ∈ (s.ledger sampleKey).seen →
      (s.healths.get? sampleKey).bind Health.lastRunId = some run.id)
    (hopen : run.id ∈ (s.ledger sampleKey).seen ∨ (s.ledger sampleKey).openUntil = none) :
    (notified run).Fair sampleEnv s := by
  intro k hk
  obtain rfl : sampleKey = k := Option.some.inj (hkey.symm.trans hk)
  refine ⟨hlast, fun hnew _ u hu => ?_⟩
  rcases hopen with hseen | hnone
  · exact absurd hseen hnew
  · exact nomatch hnone.symm.trans hu

/-- A run that is notified twice in a row counts once, and the circuit it opened stays open. -/
theorem health_accounted_lastTwice : Accounted (System.initial.run sampleEnv lastTwice) := by
  refine health_accounted sampleEnv lastTwice ⟨fair_notified ?_ ?_ ?_, fair_notified ?_ ?_ ?_,
    fair_notified ?_ ?_ ?_, fair_notified ?_ ?_ ?_, trivial⟩
  all_goals decide +kernel

end AI2Apps.AgentBuilder
