import AI2Apps.Lib.JsonText
import AI2Apps.Lib.Utf8
import Mathlib.Logic.Function.Basic

/-!
# The Model Share execution ledger

The table `model_share_jobs`: one record for each Contract.  `begin` creates a
record or finds the one that is there, `setStatus` updates it.  Both bind their
arguments to a database statement, which raises for a value the database cannot
hold; the transaction then leaves the table as it was.

* `begin_spec`: what `begin` leaves.
* `setStatus_spec`: only the Contract's own record changes, to the given status.
-/

namespace AI2Apps.ModelSharing

inductive JobStatus where
  | accepted
  | running
  | resultCommitted
  | completed
  | resultUnknown
  deriving DecidableEq

/-- The job is over, one way or the other. -/
def JobStatus.Settled : JobStatus → Prop
  | .accepted | .running => False
  | .resultCommitted | .completed | .resultUnknown => True

instance : DecidablePred JobStatus.Settled := fun s => by
  cases s <;> unfold JobStatus.Settled <;> infer_instance

structure JobRecord where
  sessionId : Str
  ownerUserId : Str
  role : Str
  status : JobStatus
  requestDigest : Str
  resultDigest : Option Str
  inputTokens : Option ℤ
  outputTokens : Option ℤ
  calculatorType : Option Str
  maximumChargeMinor : Json
  actualUsage : Option Json.Object
  chargedMinor : Json
  releasedMinor : Json

/-- The table, by `contract_id`. -/
abbrev Jobs := Str → Option JobRecord

/-- The database holds 64-bit integers. -/
def bindableInt (i : ℤ) : Bool := -9223372036854775808 ≤ i && i < 9223372036854775808

/-- A value a statement can be bound to. -/
def bindable : Json → Bool
  | .int i => bindableInt i
  | .str s => (Utf8.encode s).isSome
  | .arr _ | .obj _ => false
  | .null | .bool _ | .float _ => true

/-- The arguments of `begin` besides the Contract. -/
structure NewJob where
  sessionId : Str
  ownerUserId : Str
  role : Str
  requestDigest : Str
  calculatorType : Option Str
  maximumChargeMinor : Json

def NewJob.record (job : NewJob) : JobRecord where
  sessionId := job.sessionId
  ownerUserId := job.ownerUserId
  role := job.role
  status := .accepted
  requestDigest := job.requestDigest
  resultDigest := none
  inputTokens := none
  outputTokens := none
  calculatorType := job.calculatorType
  maximumChargeMinor := if job.calculatorType.isSome then job.maximumChargeMinor else .null
  actualUsage := none
  chargedMinor := .null
  releasedMinor := .null

/-- The record is this very job's. -/
def NewJob.Matches (job : NewJob) (record : JobRecord) : Prop :=
  record.sessionId = job.sessionId ∧ record.ownerUserId = job.ownerUserId ∧
    record.role = job.role ∧ record.requestDigest = job.requestDigest

instance (job : NewJob) : DecidablePred job.Matches := fun record => by
  unfold NewJob.Matches
  infer_instance

/-- `ModelShareRepository.begin`: whether the record was created, and the table;
`none` when it raises. -/
def Jobs.begin (jobs : Jobs) (contractId : Str) (job : NewJob) : Option (Bool × Jobs) :=
  match jobs contractId with
  | none =>
    if job.calculatorType.isSome ∧ ¬ bindable job.maximumChargeMinor then none
    else some (true, Function.update jobs contractId (some job.record))
  | some record => if job.Matches record then some (false, jobs) else none

/-- The arguments of `set_status` besides the Contract. -/
structure StatusUpdate where
  status : JobStatus
  resultDigest : Option Str := none
  inputTokens : Option ℤ := none
  outputTokens : Option ℤ := none
  actualUsage : Option Json.Object := none
  chargedMinor : Json := .null
  releasedMinor : Json := .null

def StatusUpdate.bindable (u : StatusUpdate) : Bool :=
  u.inputTokens.all bindableInt && u.outputTokens.all bindableInt &&
    ModelSharing.bindable u.chargedMinor && ModelSharing.bindable u.releasedMinor

/-- `COALESCE(?, column)`. -/
def coalesce (new old : Json) : Json := if new.isNull then old else new

def StatusUpdate.apply (u : StatusUpdate) (record : JobRecord) : JobRecord :=
  { record with
    status := u.status
    resultDigest := u.resultDigest <|> record.resultDigest
    inputTokens := u.inputTokens <|> record.inputTokens
    outputTokens := u.outputTokens <|> record.outputTokens
    actualUsage := u.actualUsage <|> record.actualUsage
    chargedMinor := coalesce u.chargedMinor record.chargedMinor
    releasedMinor := coalesce u.releasedMinor record.releasedMinor }

/-- `ModelShareRepository.set_status`; `none` when it raises. -/
def Jobs.setStatus (jobs : Jobs) (contractId : Str) (u : StatusUpdate) : Option Jobs :=
  if u.bindable then
    some (Function.update jobs contractId ((jobs contractId).map u.apply))
  else none

/-- A truthy value. -/
def truthy : Json → Bool
  | .null => false
  | .bool b => b
  | .int i => i ≠ 0
  | .float f => f ≠ .finite 0
  | .str s => s ≠ []
  | .arr items => !items.isEmpty
  | .obj members => !members.isEmpty

/-- What is released of a maximum charge, as text: `str(int(maximum) - int(charged))`
where both are set; `none` when a conversion raises. -/
def releasedMinor (toInt : Json → Option ℤ) (maximum charged : Json) : Option Json :=
  if truthy maximum && truthy charged then do
    let maximum ← toInt maximum
    let charged ← toInt charged
    return .str (JsonText.intText (maximum - charged))
  else some .null

/-! ## What the operations do to a status -/

/-- The status of a Contract's record. -/
def Jobs.status (jobs : Jobs) (contractId : Str) : Option JobStatus :=
  (jobs contractId).map JobRecord.status

@[simp] theorem apply_status (u : StatusUpdate) (record : JobRecord) :
    (u.apply record).status = u.status := rfl

/-- `begin` leaves every other Contract alone; it creates an accepted record, or
finds one and changes nothing. -/
theorem Jobs.begin_spec {jobs jobs' : Jobs} {contractId : Str} {job : NewJob} {created : Bool}
    (h : jobs.begin contractId job = some (created, jobs')) :
    (∀ c, c ≠ contractId → jobs'.status c = jobs.status c) ∧
      ((created = true ∧ jobs.status contractId = none ∧
          jobs'.status contractId = some .accepted) ∨
        (created = false ∧ jobs' = jobs ∧ jobs.status contractId ≠ none)) := by
  unfold Jobs.begin at h
  split at h
  · rename_i hnone
    split at h
    · cases h
    · cases h
      refine ⟨fun c hc => ?_, Or.inl ⟨rfl, ?_, ?_⟩⟩
      · rw [Jobs.status, Jobs.status, Function.update_of_ne hc]
      · rw [Jobs.status, hnone]
        rfl
      · rw [Jobs.status, Function.update_self]
        rfl
  · rename_i record hsome
    split at h
    · cases h
      exact ⟨fun _ _ => rfl, Or.inr ⟨rfl, rfl, by simp [Jobs.status, hsome]⟩⟩
    · cases h

/-- `set_status` leaves every other Contract alone and gives the record, where
there is one, its new status. -/
theorem Jobs.setStatus_spec {jobs jobs' : Jobs} {contractId : Str} {u : StatusUpdate}
    (h : jobs.setStatus contractId u = some jobs') :
    (∀ c, c ≠ contractId → jobs'.status c = jobs.status c) ∧
      jobs'.status contractId = (jobs.status contractId).map fun _ => u.status := by
  unfold Jobs.setStatus at h
  split at h
  · cases h
    refine ⟨fun c hc => ?_, ?_⟩
    · rw [Jobs.status, Jobs.status, Function.update_of_ne hc]
    · rw [Jobs.status, Jobs.status, Function.update_self, Option.map_map, Option.map_map]
      rfl
  · cases h

/-- Every record is settled. -/
def Jobs.Settled (jobs : Jobs) : Prop := ∀ c st, jobs.status c = some st → st.Settled

/-- Completed records stay completed. -/
def Jobs.KeepsCompleted (jobs jobs' : Jobs) : Prop :=
  ∀ c, jobs.status c = some .completed → jobs'.status c = some .completed

/-- Every other Contract has the status it had. -/
def Jobs.SameElsewhere (jobs jobs' : Jobs) (contractId : Str) : Prop :=
  ∀ c, c ≠ contractId → jobs'.status c = jobs.status c

theorem Jobs.SameElsewhere.trans {a b c : Jobs} {contractId : Str}
    (h : a.SameElsewhere b contractId) (h' : b.SameElsewhere c contractId) :
    a.SameElsewhere c contractId := fun d hd => (h' d hd).trans (h d hd)

end AI2Apps.ModelSharing
