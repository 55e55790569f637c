import AI2Apps.ModelSharing.ProviderJobs
import AI2Apps.ModelSharing.RequesterJobs

/-!
# Closure of the job ledger

A run of the provider or of the buyer should leave its job settled (completed,
result committed or result unknown) and never touch a completed one.  Both have
suspension points outside their `try`: the provider up to and including its first
yield, the buyer at the dispatch.  And the buyer's `except` clause overwrites
whatever status the record had.

* `LedgerRun`: one run of either side; `after` is the ledger it leaves.
* `runClosed_iff`: the runs that keep the ledger closed.
* `allClosed_iff`: the histories in which every run does.
-/

namespace AI2Apps.ModelSharing

open Faults

/-- A run of the provider, or of one of the buyer's three requests. -/
inductive LedgerRun where
  | serve (env : Provider.Env) (principal bearerGrant : Str) (request : Provider.InferenceRequest)
    (replay : Peer.ReplayTable)
  | stream (env : Requester.Env) (p : Requester.Purchase)
  | fetchAudio (env : Requester.Env) (p : Requester.Purchase)
  | fetchMultimodalArtifact (env : Requester.Env) (p : Requester.Purchase) (calculatorType : Str)
    (maximumChargeMinor : Json)

/-- The ledger a run leaves, however it ends. -/
def LedgerRun.after (jobs : Jobs) : LedgerRun → Jobs
  | .serve env principal bearerGrant request replay =>
    (final (Provider.serve env principal bearerGrant request) (Provider.init jobs replay)).jobs
  | .stream env p => (final (Requester.stream env p) ⟨jobs, 0⟩).jobs
  | .fetchAudio env p => (final (Requester.fetchAudio env p) ⟨jobs, 0⟩).jobs
  | .fetchMultimodalArtifact env p calculatorType maximumChargeMinor =>
    (final (Requester.fetchMultimodalArtifact env p calculatorType maximumChargeMinor)
      ⟨jobs, 0⟩).jobs

/-- The run leaves every record settled, and every completed record completed. -/
def LedgerRun.Closed (jobs : Jobs) (run : LedgerRun) : Prop :=
  (run.after jobs).Settled ∧ jobs.KeepsCompleted (run.after jobs)

/-! ## The exact condition -/

/-- A recorded job is dispatched and its stream gets past the first yield. -/
def Provider.Sound (env : Provider.Env) (principal bearerGrant : Str)
    (request : Provider.InferenceRequest) (jobs : Jobs) (replay : Peer.ReplayTable) : Prop :=
  Provider.Admitted env principal bearerGrant request jobs replay →
    env.Dispatches ∧ env.Starts request

/-- A new record is dispatched, and a completed one is delivered again if it is
dispatched again. -/
def Requester.Sound (env : Requester.Env) (api : Requester.DecoderApi) (yields : Bool)
    (jobs : Jobs) (contractId : Str) (job : NewJob) : Prop :=
  Requester.Begins env jobs contractId job →
    (jobs.status contractId = none → env.Dispatches) ∧
      (jobs.status contractId = some .completed → env.Dispatches → env.Delivers api yields)

def LedgerRun.Sound (jobs : Jobs) : LedgerRun → Prop
  | .serve env principal bearerGrant request replay =>
    Provider.Sound env principal bearerGrant request jobs replay
  | .stream env p =>
    Requester.Sound env (Requester.textDecoder p.binding) true jobs p.binding.contractId
      (p.job none .null)
  | .fetchAudio env p =>
    Requester.Sound env (Requester.audioDecoder p.binding) false jobs p.binding.contractId
      (p.job none .null)
  | .fetchMultimodalArtifact env p calculatorType maximumChargeMinor =>
    Requester.Sound env
      (Requester.multimodalDecoder p.binding calculatorType p.maxBytes maximumChargeMinor) false
      jobs p.binding.contractId (p.job (some calculatorType) maximumChargeMinor)

theorem keepsCompleted_refl (jobs : Jobs) : jobs.KeepsCompleted jobs := fun _ h => h

/-- A ledger that changes at one Contract is closed exactly when that record is. -/
theorem closed_iff_of_sameElsewhere {jobs jobs' : Jobs} {contractId : Str} {st : JobStatus}
    (hjobs : jobs.Settled) (hsame : jobs.SameElsewhere jobs' contractId)
    (hst : jobs'.status contractId = some st) :
    jobs'.Settled ∧ jobs.KeepsCompleted jobs' ↔
      st.Settled ∧ (jobs.status contractId = some .completed → st = .completed) := by
  constructor
  · rintro ⟨hsettled, hkeeps⟩
    refine ⟨hsettled contractId st hst, fun hcompleted => ?_⟩
    exact Option.some.inj (hst.symm.trans (hkeeps contractId hcompleted))
  · rintro ⟨hsettled, hkeeps⟩
    refine ⟨fun c st' hc => ?_, fun c hc => ?_⟩
    · by_cases hcc : c = contractId
      · subst hcc
        obtain rfl := Option.some.inj (hst.symm.trans hc)
        exact hsettled
      · exact hjobs c st' ((hsame c hcc).symm.trans hc)
    · by_cases hcc : c = contractId
      · subst hcc
        rw [hst, hkeeps hc]
      · exact (hsame c hcc).trans hc

theorem Provider.closed_iff {env : Provider.Env} {principal bearerGrant : Str}
    {request : Provider.InferenceRequest} {jobs : Jobs} {replay : Peer.ReplayTable}
    {s : Provider.State} (hjobs : jobs.Settled)
    (h : Provider.Outcome env principal bearerGrant request jobs replay s) :
    s.jobs.Settled ∧ jobs.KeepsCompleted s.jobs ↔
      Provider.Sound env principal bearerGrant request jobs replay := by
  unfold Provider.Sound
  obtain ⟨hno, heq⟩ | ⟨hadmitted, hnone, hout⟩ := h
  · rw [heq]
    exact iff_of_true ⟨hjobs, keepsCompleted_refl jobs⟩ fun h => absurd h hno
  · obtain ⟨hno, hsame, hopen⟩ | ⟨hdispatches, hstarts, hsame, st, hst, hsettled⟩ := hout
    · refine iff_of_false ?_ fun h => hno (h hadmitted)
      obtain hst | hst := hopen
      · rw [closed_iff_of_sameElsewhere hjobs hsame hst]
        exact fun h => h.1
      · rw [closed_iff_of_sameElsewhere hjobs hsame hst]
        exact fun h => h.1
    · rw [closed_iff_of_sameElsewhere hjobs hsame hst]
      refine iff_of_true ⟨hsettled, fun h => ?_⟩ fun _ => ⟨hdispatches, hstarts⟩
      exact absurd (hnone.symm.trans h) (by simp)

theorem Requester.closed_iff {env : Requester.Env} {api : Requester.DecoderApi} {yields : Bool}
    {jobs : Jobs} {contractId : Str} {job : NewJob} {s : Requester.State} (hjobs : jobs.Settled)
    (h : Requester.Outcome env api yields jobs contractId job s) :
    s.jobs.Settled ∧ jobs.KeepsCompleted s.jobs ↔
      Requester.Sound env api yields jobs contractId job := by
  unfold Requester.Sound
  obtain ⟨hno, heq⟩ | ⟨hbegins, hsame, hout⟩ := h
  · rw [heq]
    exact iff_of_true ⟨hjobs, keepsCompleted_refl jobs⟩ fun h => absurd h hno
  · obtain ⟨hno, hst⟩ | ⟨hdispatches, hdelivers, hst⟩ | ⟨hdispatches, hno, hst⟩ := hout
    · rw [closed_iff_of_sameElsewhere hjobs hsame hst]
      cases hold : jobs.status contractId with
      | none => exact iff_of_false (fun h => h.1) fun h => hno ((h hbegins).1 rfl)
      | some st =>
        refine iff_of_true ⟨hjobs contractId st hold, fun h => Option.some.inj h⟩ fun _ => ?_
        exact ⟨fun h => absurd h (by simp), fun _ h => absurd h hno⟩
    · rw [closed_iff_of_sameElsewhere hjobs hsame hst]
      exact iff_of_true ⟨trivial, fun _ => rfl⟩
        fun _ => ⟨fun _ => hdispatches, fun _ _ => hdelivers⟩
    · rw [closed_iff_of_sameElsewhere hjobs hsame hst]
      constructor
      · rintro ⟨-, hkeeps⟩ -
        exact ⟨fun _ => hdispatches, fun h => absurd (hkeeps h) (by simp)⟩
      · intro h
        refine ⟨trivial, fun hcompleted => ?_⟩
        exact absurd ((h hbegins).2 hcompleted hdispatches) hno

/-- **The runs that keep the ledger closed.** -/
theorem runClosed_iff {jobs : Jobs} (hjobs : jobs.Settled) (run : LedgerRun) :
    run.Closed jobs ↔ run.Sound jobs := by
  cases run with
  | serve env principal bearerGrant request replay =>
    exact Provider.closed_iff hjobs
      (Provider.serve_cases env principal bearerGrant request jobs replay)
  | stream env p => exact Requester.closed_iff hjobs (Requester.deliver_cases env _ _ jobs _ _)
  | fetchAudio env p => exact Requester.closed_iff hjobs (Requester.deliver_cases env _ _ jobs _ _)
  | fetchMultimodalArtifact env p calculatorType maximumChargeMinor =>
    exact Requester.closed_iff hjobs (Requester.deliver_cases env _ _ jobs _ _)

/-! ## Histories -/

/-- Every run of the history is closed. -/
def AllClosed : Jobs → List LedgerRun → Prop
  | _, [] => True
  | jobs, run :: runs => run.Closed jobs ∧ AllClosed (run.after jobs) runs

/-- Every run of the history is sound where it starts. -/
def AllSound : Jobs → List LedgerRun → Prop
  | _, [] => True
  | jobs, run :: runs => run.Sound jobs ∧ AllSound (run.after jobs) runs

theorem allClosed_iff_of_settled {jobs : Jobs} (hjobs : jobs.Settled) (runs : List LedgerRun) :
    AllClosed jobs runs ↔ AllSound jobs runs := by
  induction runs generalizing jobs with
  | nil => exact Iff.rfl
  | cons run runs ih =>
    rw [AllClosed, AllSound, ← runClosed_iff hjobs]
    exact and_congr_right fun hclosed => ih hclosed.1

/-- The empty table. -/
def Jobs.empty : Jobs := fun _ => none

/-- **The histories that keep the ledger closed**: from the empty table, every run
leaves its job settled and no completed record changes exactly when every run is
sound in the ledger it starts in. -/
theorem allClosed_iff (runs : List LedgerRun) :
    AllClosed Jobs.empty runs ↔ AllSound Jobs.empty runs :=
  allClosed_iff_of_settled (fun _ _ h => absurd h (by simp [Jobs.empty, Jobs.status])) runs

/-- A buyer's text request whose transport raises at the dispatch. -/
def failedDispatch : LedgerRun :=
  .stream
    { toInt := fun _ => none, sessionActive := true, grantForReady := true, refreshGrant := none
      transportGiven := true, peerCore := false, transportFor := none, payload := none
      postStream := some .raised, body := [], sign := none, settled := none
      consumer := fun _ => none }
    { binding :=
        { codec := ⟨fun _ => none, fun _ => [], fun _ => true⟩, floats := ⟨fun _ => [], fun _ => .nan⟩
          contractId := str "4c1e0f2a-0000-4000-8000-000000000001"
          requestDigest := List.replicate 64 48 }
      sessionId := str "4c1e0f2a-0000-4000-8000-000000000002"
      principal := str "4c1e0f2a-0000-4000-8000-000000000003"
      maxBytes := 1024 }

/-- The record of that request stays accepted. -/
theorem failedDispatch_not_closed : ¬ ∀ runs, AllClosed Jobs.empty runs := by
  intro h
  have hsettled := (h [failedDispatch]).1.1
  exact hsettled (str "4c1e0f2a-0000-4000-8000-000000000001") .accepted (by decide +kernel)

end AI2Apps.ModelSharing
