import AI2Apps.ModelSharing.Provider

/-!
# The provider's jobs

How a run of the provider leaves the ledger.  Everything under the `except`
clause of a stream leaves the job settled, however it ends; what comes before the
first yield has returned leaves it accepted or running.

* `release_ends`, `bodyFor_ends`: the three streams under their `except` clause.
* `guarded_settled`: a guarded body settles its job.
* `serve_cases`: how a run can end.
-/

namespace AI2Apps.ModelSharing

open Faults

namespace Provider

variable {I : State → Prop} {base : Jobs} {contractId : Str} {env : Env}

theorem preserves_awaitValue {α : Type} (o : Option α) : Preserves I (awaitValue o) :=
  .orThrow _ o

theorem preserves_fail {α : Type} (code message : String) (statusCode : ℕ) :
    Preserves I (fail code message statusCode : Run α) := .throw _

theorem preserves_failIf (p : Prop) [Decidable p] (code message : String) (statusCode : ℕ) :
    Preserves I (failIf p code message statusCode) := .only p (.throw _)

/-- The job is recorded, the stream is not over, and other Contracts are as they
were in `base`. -/
def Open (base : Jobs) (contractId : Str) (s : State) : Prop :=
  s.terminal = false ∧ base.SameElsewhere s.jobs contractId ∧ s.jobs.status contractId ≠ none

theorem setStatus_open (u : StatusUpdate) :
    Preserves (Open base contractId) (setStatus contractId u) := by
  intro s hs
  unfold setStatus
  simp only [wp_bind, wp_get]
  cases hset : s.jobs.setStatus contractId u with
  | none => exact hs
  | some jobs =>
    obtain ⟨hother, hself⟩ := Jobs.setStatus_spec hset
    refine ⟨hs.1, hs.2.1.trans hother, ?_⟩
    show jobs.status contractId ≠ none
    rw [hself]
    simpa using hs.2.2

/-- An update the database can hold is made. -/
theorem wp_setStatus {u : StatusUpdate} (hu : u.bindable = true) {s : State}
    {Q : Unit → State → Prop} {E : Exc → State → Prop}
    (h : ∀ jobs, s.jobs.setStatus contractId u = some jobs → Q () { s with jobs }) :
    wp (setStatus contractId u) Q E s := by
  have hset : s.jobs.setStatus contractId u =
      some (Function.update s.jobs contractId ((s.jobs contractId).map u.apply)) := if_pos hu
  unfold setStatus
  simp only [wp_bind, wp_get]
  rw [hset]
  exact h _ hset

/-- A yield changes what is emitted and nothing else. -/
theorem yieldSse_preserves {I : State → Prop} (hI : ∀ s emitted, I s → I { s with emitted })
    (event : String) (data : Json.Object) : Preserves I (yieldSse env event data) := by
  unfold yieldSse
  refine .bind (preserves_awaitValue _) fun raw => .bind (fun s hs => hI s _ hs) fun _ =>
    .bind (fun s hs => hs) fun s => .fault _

theorem yieldSse_open (event : String) (data : Json.Object) :
    Preserves (Open base contractId) (yieldSse env event data) :=
  yieldSse_preserves (fun _ _ hs => hs) event data

theorem streamChunks_open (event artifactId : String) (content : List ℕ) (sequence : ℕ)
    (offsets : List ℕ) :
    Preserves (Open base contractId)
      (streamChunks env event artifactId contractId content sequence offsets) := by
  induction offsets generalizing sequence with
  | nil => exact .pure _
  | cons offset offsets ih => exact .bind (yieldSse_open _ _) fun _ => ih (sequence + 1)

theorem streamDeltas_open (limit sequence : ℕ) (text : Str) (textBytes : ℕ)
    (deltas : List Delta) :
    Preserves (Open base contractId)
      (streamDeltas env contractId limit sequence text textBytes deltas) := by
  induction deltas generalizing sequence text textBytes with
  | nil => exact .pure _
  | cons delta deltas ih =>
    cases delta with
    | fails => exact .throw _
    | nonText => exact preserves_fail _ _ _
    | text delta =>
      exact .bind (preserves_awaitValue _) fun encoded => .bind (preserves_failIf _ _ _ _) fun _ =>
        .bind (yieldSse_open _ _) fun _ => ih _ _ _

theorem commit_open (message : String) :
    Preserves (Open base contractId) (commit env message) :=
  .bind (.fault _) fun _ => .bind (preserves_awaitValue _) fun _ =>
    .bind (preserves_failIf _ _ _ _) fun _ => .pure _

theorem checkDuration_open (calculatorType : Str) (actualUsage boundedUsage : Json.Object) :
    Preserves (Open base contractId) (checkDuration calculatorType actualUsage boundedUsage) :=
  .only _ (.bind (preserves_awaitValue _) fun _ => preserves_failIf _ _ _ _)

/-- How a guarded body may end: completed, or raising with the record still there
and completed if the stream was over. -/
def Ends (base : Jobs) (contractId : Str) (body : Run Unit) : Prop :=
  ∀ s, Open base contractId s →
    wp body
      (fun _ s' => base.SameElsewhere s'.jobs contractId ∧
        s'.jobs.status contractId = some .completed)
      (fun _ s' => base.SameElsewhere s'.jobs contractId ∧ s'.jobs.status contractId ≠ none ∧
        (s'.terminal = true → s'.jobs.status contractId = some .completed)) s

/-- A body that keeps the job open and then goes on. -/
theorem Ends.bind {α : Type} {x : Run α} {f : α → Run Unit}
    (hx : Preserves (Open base contractId) x) (hf : ∀ a, Ends base contractId (f a)) :
    Ends base contractId (x >>= f) := fun s hs => by
  rw [wp_bind]
  exact wp_mono (hx s hs) (fun a s' h' => hf a s' h') fun _ s' h =>
    ⟨h.2.1, h.2.2, fun ht => absurd (ht.symm.trans h.1) (by simp)⟩

theorem Ends.fail (code message : String) (statusCode : ℕ) :
    Ends base contractId (fail code message statusCode) := fun s hs =>
  ⟨hs.2.1, hs.2.2, fun ht => absurd (ht.symm.trans hs.1) (by simp)⟩

/-- The events after the commitment, the last of them with the record completed. -/
theorem release_ends (sequence : ℕ) (committed manifest : Json.Object) :
    Ends base contractId (release env contractId sequence committed manifest) := by
  refine .bind (yieldSse_open _ _) fun _ => .bind (yieldSse_open _ _) fun _ => fun s hs => ?_
  rw [wp_bind]
  refine wp_setStatus rfl fun jobs hset => ?_
  obtain ⟨hother, hself⟩ := Jobs.setStatus_spec hset
  have hcompleted : jobs.status contractId = some .completed := by
    rw [hself]
    cases hst : s.jobs.status contractId with
    | none => exact absurd hst hs.2.2
    | some st => rfl
  rw [wp_bind, wp_modify]
  refine wp_mono (@yieldSse_preserves env
    (fun s' => base.SameElsewhere s'.jobs contractId ∧
      s'.jobs.status contractId = some .completed) (fun _ _ h => h) _ _ _
    ⟨hs.2.1.trans hother, hcompleted⟩) (fun _ _ h => h) fun _ s' h => ?_
  exact ⟨h.1, by rw [h.2]; simp, fun _ => h.2⟩

theorem textBody_ends (maxBytes : ℕ) (request : InferenceRequest) :
    Ends base request.contractId (textBody env maxBytes request) :=
  .bind (streamDeltas_open _ _ _ _ _) fun _ => .bind (preserves_awaitValue _) fun _ =>
    .bind (preserves_failIf _ _ _ _) fun _ => .bind (preserves_awaitValue _) fun _ =>
      .bind (commit_open _) fun _ => .bind (setStatus_open _) fun _ => release_ends _ _ _

theorem audioBody_ends (maxBytes : ℕ) (request : InferenceRequest) :
    Ends base request.contractId (audioBody env maxBytes request) := by
  unfold audioBody
  split
  · exact .fail _ _ _
  · exact .fail _ _ _
  · refine .bind (preserves_failIf _ _ _ _) fun _ => ?_
    split
    · exact .bind (preserves_failIf _ _ _ _) fun _ => .bind (streamChunks_open _ _ _ _ _) fun _ =>
        .bind (preserves_awaitValue _) fun _ => .bind (commit_open _) fun _ =>
          .bind (setStatus_open _) fun _ => release_ends _ _ _
    · exact .fail _ _ _

theorem multimodalBody_ends (maxBytes : ℕ) (request : InferenceRequest) (calculatorType : Str)
    (boundedUsage : Json.Object) :
    Ends base request.contractId
      (multimodalBody env maxBytes request calculatorType boundedUsage) := by
  unfold multimodalBody
  refine .bind (preserves_awaitValue _) fun _ => .bind (checkDuration_open _ _ _) fun _ => ?_
  split
  · exact .fail _ _ _
  · exact .fail _ _ _
  · split
    · exact .fail _ _ _
    · exact .fail _ _ _
    · exact .bind (preserves_failIf _ _ _ _) fun _ => .bind (streamChunks_open _ _ _ _ _) fun _ =>
        .bind (preserves_awaitValue _) fun _ => .bind (commit_open _) fun _ =>
          .bind (preserves_awaitValue _) fun _ => .bind (setStatus_open _) fun _ => release_ends _ _ _

/-- What the stream of each kind runs under its `except` clause. -/
def bodyFor (env : Env) (request : InferenceRequest) (contract : Json.Object) : Run Unit :=
  let maxBytes := (env.session.map fun r => r.session.transportPolicy.maxBytes).getD 0
  match request.kind with
  | .text => textBody env maxBytes request
  | .audioTts => audioBody env maxBytes request
  | .multimodal =>
    multimodalBody env maxBytes request ((calculatorOf request).getD [])
      (((getOr contract "boundedUsage" .null).obj?).getD [])

/-- The first event of each kind. -/
def acceptedData (request : InferenceRequest) : Json.Object :=
  match request.kind with
  | .text => accepted 1 request ++ [(str "sequence", .int 0)]
  | .audioTts => accepted 2 request ++ [(str "sequence", .int 0)]
  | .multimodal => accepted 3 request ++
      [(str "calculatorType", .str ((calculatorOf request).getD [])), (str "sequence", .int 0)]

/-- Every stream is a first yield and then a guarded body. -/
theorem streamFor_eq (env : Env) (request : InferenceRequest) (contract : Json.Object) :
    streamFor env request contract = (do
      yieldSse env "job.accepted" (acceptedData request)
      guarded request.contractId (bodyFor env request contract)) := by
  unfold streamFor bodyFor acceptedData
  cases request.kind <;> rfl

theorem bodyFor_ends (request : InferenceRequest) (contract : Json.Object) :
    Ends base request.contractId (bodyFor env request contract) := by
  unfold bodyFor
  cases request.kind
  · exact textBody_ends _ _
  · exact audioBody_ends _ _
  · exact multimodalBody_ends _ _ _ _

/-- The record is settled, and the other Contracts are as they were. -/
def SettledOnly (base : Jobs) (contractId : Str) (s : State) : Prop :=
  base.SameElsewhere s.jobs contractId ∧ ∃ st, s.jobs.status contractId = some st ∧ st.Settled

/-- **Under the `except` clause a job is settled**, however the body ends. -/
theorem guarded_settled {body : Run Unit} {s : State} (hbody : Ends base contractId body)
    (hs : Open base contractId s) :
    wp (guarded contractId body) (fun _ => SettledOnly base contractId)
      (fun _ => SettledOnly base contractId) s := by
  unfold guarded
  rw [wp_tryCatch]
  refine wp_mono (hbody s hs) (fun _ s' h => ⟨h.1, .completed, h.2, trivial⟩)
    fun e s' ⟨hsame, hne, hterminal⟩ => ?_
  rw [wp_bind, wp_get, wp_bind]
  cases hterm : s'.terminal with
  | true =>
    rw [wp_only_neg (by simp)]
    exact ⟨hsame, .completed, hterminal hterm, trivial⟩
  | false =>
    rw [wp_only_pos rfl]
    refine wp_setStatus rfl fun jobs hset => ?_
    obtain ⟨hother, hself⟩ := Jobs.setStatus_spec hset
    obtain ⟨st, hst⟩ := Option.ne_none_iff_exists'.mp hne
    exact ⟨hsame.trans hother, .resultUnknown, by rw [hself, hst]; rfl, trivial⟩

/-! ## From the request to the stream -/

def init (jobs : Jobs) (replay : Peer.ReplayTable) : State := ⟨jobs, replay, [], false⟩

/-- Nothing of the run has reached the ledger or the consumer. -/
def Untouched (jobs : Jobs) (s : State) : Prop :=
  s.jobs = jobs ∧ s.emitted = [] ∧ s.terminal = false

theorem authorize_untouched {jobs : Jobs} (env : Env) (principal bearerGrant : Str)
    (request : InferenceRequest) :
    Preserves (Untouched jobs) (authorize env principal bearerGrant request) := by
  have hgrant : ∀ record, Preserves (Untouched jobs) (admitGrant env bearerGrant record) := by
    intro record
    unfold admitGrant
    refine .bind (preserves_awaitValue _) fun jwks => ?_
    split
    · exact preserves_fail _ _ _
    · exact .bind (preserves_awaitValue _) fun _ => .bind (fun s hs => hs) fun _ =>
        .bind (fun s hs => hs) fun _ => preserves_failIf _ _ _ _
  have hpricing : ∀ contract, Preserves (Untouched jobs) (checkPricing request contract) := by
    intro contract
    unfold checkPricing
    split
    · exact preserves_failIf _ _ _ _
    · exact preserves_fail _ _ _
  unfold authorize
  split
  · exact preserves_fail _ _ _
  · exact .bind (preserves_failIf _ _ _ _) fun _ => .bind (preserves_failIf _ _ _ _) fun _ =>
      .bind (preserves_failIf _ _ _ _) fun _ => .bind (hgrant _) fun _ => .bind (preserves_awaitValue _) fun _ =>
        .bind (preserves_awaitValue _) fun _ => .bind (preserves_failIf _ _ _ _) fun _ =>
          .bind (.only _ (hpricing _)) fun _ => .pure _

/-- A request is admitted with a new, accepted record, or the ledger is untouched. -/
theorem admit_spec {jobs : Jobs} (env : Env) (principal bearerGrant : Str)
    (request : InferenceRequest) (replay : Peer.ReplayTable) :
    wp (admission env principal bearerGrant request)
      (fun _ s => jobs.status request.contractId = none ∧
        jobs.SameElsewhere s.jobs request.contractId ∧
        s.jobs.status request.contractId = some .accepted ∧ s.emitted = [] ∧ s.terminal = false)
      (fun _ s => s.jobs = jobs) (init jobs replay) := by
  unfold admission
  rw [wp_bind]
  refine wp_mono (authorize_untouched env principal bearerGrant request (init jobs replay)
    ⟨rfl, rfl, rfl⟩) (fun contract s ⟨hjobs, hemitted, hterm⟩ => ?_) fun _ s h => h.1
  unfold beginJob
  simp only [wp_bind, wp_get]
  generalize hjob : (NewJob.mk request.sessionId principal (str "provider") request.requestDigest
    (calculatorOf request) (if request.kind = .multimodal
      then getOr contract "maximumChargeMinor" .null else .null)) = job
  cases hbegin : s.jobs.begin request.contractId job with
  | none => exact hjobs
  | some p =>
    obtain ⟨created, jobs'⟩ := p
    rw [hjobs] at hbegin
    obtain ⟨hother, ⟨rfl, hnone, haccepted⟩ | ⟨rfl, rfl, -⟩⟩ := Jobs.begin_spec hbegin
    · exact ⟨hnone, hother, haccepted, hemitted, hterm⟩
    · rfl

/-- The Worker gets the job. -/
def Env.Dispatches (env : Env) : Prop :=
  env.signerFactory = none ∧ env.signAcceptance = none ∧
    (∃ running, env.inputAcceptance = some running ∧
      Json.memberEq running (str "status") (.str (str "running")) = true) ∧
    env.inferenceHandler = none

/-- An unsettled record. -/
def Unsettled (base : Jobs) (contractId : Str) (s : State) : Prop :=
  base.SameElsewhere s.jobs contractId ∧
    (s.jobs.status contractId = some .accepted ∨ s.jobs.status contractId = some .running)

/-- A dispatched job is running; one that is not stays accepted or running. -/
theorem dispatch_spec {request : InferenceRequest} {s : State}
    (hsame : base.SameElsewhere s.jobs request.contractId)
    (haccepted : s.jobs.status request.contractId = some .accepted) :
    wp (dispatch env request)
      (fun _ s' => env.Dispatches ∧ base.SameElsewhere s'.jobs request.contractId ∧
        s'.jobs.status request.contractId = some .running ∧ s'.emitted = s.emitted ∧
        s'.terminal = s.terminal)
      (fun _ s' => ¬ env.Dispatches ∧ Unsettled base request.contractId s') s := by
  unfold dispatch
  rw [wp_bind]
  cases hfactory : env.signerFactory with
  | some e =>
    exact ⟨fun h => absurd (h.1.symm.trans hfactory) (by simp), hsame, Or.inl haccepted⟩
  | none =>
  rw [wp_fault_none, wp_bind]
  cases hsign : env.signAcceptance with
  | some e => exact ⟨fun h => absurd (h.2.1.symm.trans hsign) (by simp), hsame, Or.inl haccepted⟩
  | none =>
  rw [wp_fault_none, wp_bind]
  cases hrunning : env.inputAcceptance with
  | none =>
    refine ⟨fun h => ?_, hsame, Or.inl haccepted⟩
    obtain ⟨-, -, ⟨running, hsome, -⟩, -⟩ := h
    exact absurd (hsome.symm.trans hrunning) (by simp)
  | some running =>
  show wp (_ >>= _) _ _ s
  rw [wp_bind]
  unfold failIf
  by_cases hstatus : Json.memberEq running (str "status") (.str (str "running")) = true
  · rw [wp_only_neg (by simpa using hstatus), wp_bind]
    refine wp_setStatus rfl fun jobs hset => ?_
    obtain ⟨hother, hself⟩ := Jobs.setStatus_spec hset
    have hrun : jobs.status request.contractId = some .running := by
      rw [hself, haccepted]
      rfl
    cases hhandler : env.inferenceHandler with
    | some e =>
      exact ⟨fun h => absurd (h.2.2.2.symm.trans hhandler) (by simp), hsame.trans hother,
        Or.inr hrun⟩
    | none =>
      exact ⟨⟨hfactory, hsign, ⟨running, hrunning, hstatus⟩, hhandler⟩, hsame.trans hother, hrun,
        rfl, rfl⟩
  · rw [wp_only_pos hstatus]
    refine ⟨fun h => ?_, hsame, Or.inl haccepted⟩
    obtain ⟨-, -, ⟨running', hsome, htrue⟩, -⟩ := h
    rw [hrunning] at hsome
    cases hsome
    exact hstatus htrue

/-- The first event is sent and the consumer goes on. -/
def Env.Starts (env : Env) (request : InferenceRequest) : Prop :=
  env.unstarted = false ∧
    (sse env.floats "job.accepted" (acceptedData request)).isSome = true ∧ env.consumer 0 = none

/-- A request is admitted: authorized, and recorded as a new job. -/
def Admitted (env : Env) (principal bearerGrant : Str) (request : InferenceRequest)
    (jobs : Jobs) (replay : Peer.ReplayTable) : Prop :=
  ∃ contract s, (admission env principal bearerGrant request).run (init jobs replay) =
    .ok contract s

/-- How a run of the provider leaves the ledger. -/
def Outcome (env : Env) (principal bearerGrant : Str) (request : InferenceRequest)
    (jobs : Jobs) (replay : Peer.ReplayTable) (s : State) : Prop :=
  (¬ Admitted env principal bearerGrant request jobs replay ∧ s.jobs = jobs) ∨
    (Admitted env principal bearerGrant request jobs replay ∧
      jobs.status request.contractId = none ∧
      ((¬ (env.Dispatches ∧ env.Starts request) ∧ Unsettled jobs request.contractId s) ∨
        (env.Dispatches ∧ env.Starts request ∧ SettledOnly jobs request.contractId s)))

/-- The stream leaves the job settled exactly when it gets past its first yield. -/
theorem streamFor_spec {request : InferenceRequest} {s : State} (contract : Json.Object)
    (hsame : base.SameElsewhere s.jobs request.contractId)
    (hrunning : s.jobs.status request.contractId = some .running) (hemitted : s.emitted = [])
    (hterm : s.terminal = false) {P : State → Prop}
    (hopen : ∀ s', ¬ ((sse env.floats "job.accepted" (acceptedData request)).isSome = true ∧
      env.consumer 0 = none) → Unsettled base request.contractId s' → P s')
    (hsettled : ∀ s', (sse env.floats "job.accepted" (acceptedData request)).isSome = true →
      env.consumer 0 = none → SettledOnly base request.contractId s' → P s') :
    wp (streamFor env request contract) (fun _ => P) (fun _ => P) s := by
  rw [streamFor_eq]
  unfold yieldSse
  simp only [wp_bind]
  cases hsse : sse env.floats "job.accepted" (acceptedData request) with
  | none => exact hopen s (by simp [hsse]) ⟨hsame, Or.inr hrunning⟩
  | some raw =>
    show wp (fault (env.consumer ((s.emitted ++ [raw]).length - 1))) _ _
      { s with emitted := s.emitted ++ [raw] }
    rw [hemitted]
    cases hconsumer : env.consumer (([] ++ [raw] : List (List ℕ)).length - 1) with
    | some e =>
      refine hopen _ (fun h => ?_) ⟨hsame, Or.inr hrunning⟩
      exact absurd (h.2.symm.trans hconsumer) (by simp)
    | none =>
      rw [wp_fault_none]
      refine wp_mono (guarded_settled (bodyFor_ends request contract) ⟨hterm, hsame, ?_⟩)
        (fun _ s' h => ?_) fun _ s' h => ?_
      · rw [hrunning]
        simp
      · exact hsettled s' (by simp [hsse]) hconsumer h
      · exact hsettled s' (by simp [hsse]) hconsumer h

/-- **How a run of the provider can end.** -/
theorem serve_cases (env : Env) (principal bearerGrant : Str) (request : InferenceRequest)
    (jobs : Jobs) (replay : Peer.ReplayTable) :
    Outcome env principal bearerGrant request jobs replay
      (final (serve env principal bearerGrant request) (init jobs replay)) := by
  refine wp_final.mp ?_
  unfold serve inference
  rw [wp_bind, wp_bind]
  have hadmit := @admit_spec jobs env principal bearerGrant request replay
  unfold wp at hadmit
  cases hrun : (admission env principal bearerGrant request).run (init jobs replay) with
  | error e s =>
    rw [hrun] at hadmit
    rw [wp_of_error hrun]
    refine Or.inl ⟨?_, hadmit⟩
    rintro ⟨contract, s', h⟩
    exact absurd (h.symm.trans hrun) (by simp)
  | ok contract s =>
    rw [hrun] at hadmit
    obtain ⟨hnone, hsame, haccepted, hemitted, hterm⟩ := hadmit
    have hadmitted : Admitted env principal bearerGrant request jobs replay := ⟨contract, s, hrun⟩
    rw [wp_of_ok hrun, wp_bind]
    refine wp_mono (dispatch_spec hsame haccepted) ?_ ?_
    · rintro _ s' ⟨hdispatches, hsame', hrunning, hemitted', hterm'⟩
      rw [wp_pure]
      cases hunstarted : env.unstarted with
      | true =>
        rw [wp_only_neg (by simp)]
        refine Or.inr ⟨hadmitted, hnone, Or.inl ⟨fun h => ?_, hsame', Or.inr hrunning⟩⟩
        exact absurd (h.2.1.symm.trans hunstarted) (by simp)
      | false =>
        rw [wp_only_pos rfl]
        refine streamFor_spec contract hsame' hrunning (hemitted'.trans hemitted)
          (hterm'.trans hterm) ?_ ?_
        · intro s'' hno hunsettled
          exact Or.inr ⟨hadmitted, hnone, Or.inl ⟨fun h => hno h.2.2, hunsettled⟩⟩
        · intro s'' hsse hconsumer hsettled
          exact Or.inr ⟨hadmitted, hnone, Or.inr ⟨hdispatches, ⟨hunstarted, hsse, hconsumer⟩,
            hsettled⟩⟩
    · rintro e s' ⟨hno, hunsettled⟩
      exact Or.inr ⟨hadmitted, hnone, Or.inl ⟨fun h => hno h.1, hunsettled⟩⟩

end Provider

end AI2Apps.ModelSharing
