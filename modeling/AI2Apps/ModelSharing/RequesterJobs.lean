import AI2Apps.ModelSharing.Requester

/-!
# The buyer's jobs

How a run of the buyer leaves the ledger.  The record is begun, or found, before
the dispatch; from the dispatch on every exception makes its result unknown.

* `readBody_spec`, `receive_spec`: reading, verifying and settling.
* `deliver_cases`: how a run can end.
-/

namespace AI2Apps.ModelSharing

open Faults

namespace Requester

variable {env : Env} {api : DecoderApi} {yields : Bool} {contractId : Str} {job : NewJob}

/-- The session, the grant and the transport are there. -/
def Env.Prepares (env : Env) : Prop :=
  env.sessionActive = true ∧ (env.grantForReady = true ∨ env.refreshGrant = none) ∧
    (env.transportGiven = true ∨ (env.peerCore = true ∧ env.transportFor = none))

theorem prepare_spec (s : State) :
    wp (prepare env) (fun _ s' => env.Prepares ∧ s' = s) (fun _ s' => ¬ env.Prepares ∧ s' = s) s := by
  unfold prepare Env.Prepares
  rw [wp_bind]
  cases env.sessionActive with
  | false =>
    rw [wp_only_pos (by simp)]
    exact ⟨by simp, rfl⟩
  | true =>
  rw [wp_only_neg (by simp), wp_bind]
  suffices htransport : ∀ _ : env.grantForReady = true ∨ env.refreshGrant = none,
      wp (only (¬ env.transportGiven = true) do
          only (¬ env.peerCore = true) (throw Exc.raised)
          fault env.transportFor)
        (fun _ s' => (true = true ∧ (env.grantForReady = true ∨ env.refreshGrant = none) ∧
          (env.transportGiven = true ∨ (env.peerCore = true ∧ env.transportFor = none))) ∧ s' = s)
        (fun _ s' => ¬ (true = true ∧ (env.grantForReady = true ∨ env.refreshGrant = none) ∧
          (env.transportGiven = true ∨ (env.peerCore = true ∧ env.transportFor = none))) ∧
            s' = s) s by
    cases hgrant : env.grantForReady with
    | true =>
      rw [wp_only_neg (by simp)]
      simpa [hgrant] using htransport (Or.inl hgrant)
    | false =>
      rw [wp_only_pos (by simp)]
      cases hrefresh : env.refreshGrant with
      | some e => exact ⟨by simp, rfl⟩
      | none =>
        rw [wp_fault_none]
        simpa [hgrant, hrefresh] using htransport (Or.inr hrefresh)
  intro hgrant
  cases env.transportGiven with
  | true =>
    rw [wp_only_neg (by simp)]
    exact ⟨⟨rfl, hgrant, Or.inl rfl⟩, rfl⟩
  | false =>
    rw [wp_only_pos (by simp), wp_bind]
    cases env.peerCore with
    | false =>
      rw [wp_only_pos (by simp)]
      exact ⟨by simp, rfl⟩
    | true =>
      rw [wp_only_neg (by simp)]
      cases env.transportFor with
      | some e => exact ⟨by simp, rfl⟩
      | none => exact ⟨⟨rfl, hgrant, Or.inr ⟨rfl, rfl⟩⟩, rfl⟩

/-- The chunks arrive, the decoder takes them, and from the `n`th yield on the
consumer stays for every event. -/
def Env.Reads (env : Env) (api : DecoderApi) (yields : Bool) (d : Decoder api.σ) (n : ℕ)
    (chunks : List (Option (List ℕ))) (d' : Decoder api.σ) : Prop :=
  ∃ bytes events, chunks = bytes.map some ∧ feedAll api.parse d bytes = .ok (d', events) ∧
    (yields = true → ∀ k, n ≤ k → k < n + events.length → env.consumer k = none)

theorem reads_cons {d d₁ d' : Decoder api.σ} {n : ℕ} {chunk : List ℕ}
    {chunks : List (Option (List ℕ))} {events : List ModelShareEvent}
    (hfeed : feed api.parse d chunk = .ok (d₁, events)) :
    env.Reads api yields d n (some chunk :: chunks) d' ↔
      (yields = true → ∀ k, n ≤ k → k < n + events.length → env.consumer k = none) ∧
        env.Reads api yields d₁ (n + events.length) chunks d' := by
  have hall : ∀ bytes, feedAll api.parse d (chunk :: bytes) =
      (feedAll api.parse d₁ bytes).map fun p => (p.1, events ++ p.2) := by
    intro bytes
    rw [feedAll, hfeed]
    simp only [bind, Except.bind]
    cases feedAll api.parse d₁ bytes <;> rfl
  constructor
  · rintro ⟨bytes, all, hchunks, hfeedAll, hstay⟩
    cases bytes with
    | nil => exact absurd hchunks (by simp)
    | cons b bytes =>
      rw [List.map_cons] at hchunks
      obtain ⟨hb, hrest⟩ := List.cons.inj hchunks
      obtain rfl := Option.some.inj hb
      rw [hall] at hfeedAll
      cases hd₁ : feedAll api.parse d₁ bytes with
      | error e => rw [hd₁] at hfeedAll; cases hfeedAll
      | ok p =>
        rw [hd₁] at hfeedAll
        cases hfeedAll
        refine ⟨fun hy k h1 h2 => hstay hy k h1 (by rw [List.length_append]; omega), bytes, p.2,
          hrest, hd₁, fun hy k h1 h2 => hstay hy k (by omega) (by rw [List.length_append]; omega)⟩
  · rintro ⟨hfirst, bytes, rest, rfl, hfeedAll, hstay⟩
    refine ⟨chunk :: bytes, events ++ rest, rfl, by rw [hall, hfeedAll]; rfl, fun hy k h1 h2 => ?_⟩
    rw [List.length_append] at h2
    by_cases hk : k < n + events.length
    · exact hfirst hy k h1 hk
    · exact hstay hy k (by omega) (by omega)

/-- The yields of the events of one chunk. -/
theorem yieldEvents_spec (events : List ModelShareEvent) (s : State) :
    wp (forM events fun _ => yieldEvent env)
      (fun _ s' => s'.jobs = s.jobs ∧ s'.yielded = s.yielded + events.length ∧
        ∀ k, s.yielded ≤ k → k < s.yielded + events.length → env.consumer k = none)
      (fun _ s' => s'.jobs = s.jobs ∧
        ∃ k, s.yielded ≤ k ∧ k < s.yielded + events.length ∧ env.consumer k ≠ none) s := by
  induction events generalizing s with
  | nil =>
    refine ⟨rfl, rfl, fun k h1 h2 => ?_⟩
    rw [List.length_nil] at h2
    omega
  | cons event events ih =>
    rw [List.forM_cons, wp_bind]
    unfold yieldEvent
    simp only [wp_bind, wp_get, wp_modify]
    cases hconsumer : env.consumer s.yielded with
    | some e =>
      refine ⟨rfl, s.yielded, le_refl _, ?_, by simp [hconsumer]⟩
      rw [List.length_cons]
      omega
    | none =>
      rw [wp_fault_none]
      refine wp_mono (ih _) ?_ ?_
      · rintro _ s' ⟨hjobs, hyielded, hstay⟩
        dsimp only at hjobs hyielded hstay
        refine ⟨hjobs, by rw [hyielded, List.length_cons]; omega, fun k h1 h2 => ?_⟩
        rw [List.length_cons] at h2
        rcases Nat.eq_or_lt_of_le h1 with rfl | h1
        · exact hconsumer
        · exact hstay k (by omega) (by omega)
      · rintro _ s' ⟨hjobs, k, h1, h2, hk⟩
        dsimp only at hjobs h1 h2
        exact ⟨hjobs, k, by omega, by rw [List.length_cons]; omega, hk⟩

/-- Reading the body leaves the ledger alone; it returns exactly when it can. -/
theorem readBody_spec (chunks : List (Option (List ℕ))) (d : Decoder api.σ) (s : State) :
    wp (readBody env api yields d chunks)
      (fun d' s' => s'.jobs = s.jobs ∧ env.Reads api yields d s.yielded chunks d')
      (fun _ s' => s'.jobs = s.jobs ∧ ∀ d', ¬ env.Reads api yields d s.yielded chunks d') s := by
  induction chunks generalizing d s with
  | nil =>
    refine ⟨rfl, [], [], rfl, rfl, fun _ k h1 h2 => ?_⟩
    rw [List.length_nil] at h2
    omega
  | cons chunk chunks ih =>
    cases chunk with
    | none =>
      refine ⟨rfl, ?_⟩
      rintro d' ⟨bytes, events, hchunks, -⟩
      cases bytes <;> exact absurd hchunks (by simp)
    | some chunk =>
      rw [readBody]
      cases hfeed : feed api.parse d chunk with
      | error e =>
        refine ⟨rfl, ?_⟩
        rintro d' ⟨bytes, events, hchunks, hfeedAll, -⟩
        cases bytes with
        | nil => exact absurd hchunks (by simp)
        | cons b bytes =>
          rw [List.map_cons] at hchunks
          obtain rfl := Option.some.inj (List.cons.inj hchunks).1
          rw [feedAll, hfeed] at hfeedAll
          cases hfeedAll
      | ok p =>
        obtain ⟨d₁, events⟩ := p
        dsimp only
        rw [wp_bind]
        cases hyields : yields with
        | false =>
          rw [wp_only_neg (by simp)]
          subst hyields
          have hany : ∀ n m d', env.Reads api false d₁ n chunks d' ↔
              env.Reads api false d₁ m chunks d' := fun n m d' => by simp [Env.Reads]
          refine wp_mono (ih d₁ s) ?_ ?_
          · rintro d' s' ⟨hjobs, hreads⟩
            exact ⟨hjobs, (reads_cons hfeed).mpr ⟨by simp, (hany _ _ d').mp hreads⟩⟩
          · rintro _ s' ⟨hjobs, hno⟩
            exact ⟨hjobs, fun d' hreads => hno d' ((hany _ _ d').mp ((reads_cons hfeed).mp hreads).2)⟩
        | true =>
          rw [wp_only_pos (by simp)]
          subst hyields
          refine wp_mono (yieldEvents_spec events s) ?_ ?_
          · rintro _ s₁ ⟨hjobs, hyielded, hstay⟩
            refine wp_mono (ih d₁ s₁) ?_ ?_
            · rintro d' s' ⟨hjobs', hreads⟩
              rw [hyielded] at hreads
              exact ⟨hjobs'.trans hjobs, (reads_cons hfeed).mpr ⟨fun _ => hstay, hreads⟩⟩
            · rintro _ s' ⟨hjobs', hno⟩
              rw [hyielded] at hno
              exact ⟨hjobs'.trans hjobs, fun d' hreads => hno d' ((reads_cons hfeed).mp hreads).2⟩
          · rintro _ s' ⟨hjobs, k, h1, h2, hk⟩
            exact ⟨hjobs, fun d' hreads => hk (((reads_cons hfeed).mp hreads).1 rfl k h1 h2)⟩

/-- The output arrives and verifies, and the Cloud settles the receipt. -/
def Env.Delivers (env : Env) (api : DecoderApi) (yields : Bool) : Prop :=
  ∃ d settled u, env.Reads api yields api.init 0 env.body d ∧ api.finish d = .ok () ∧
    env.sign = none ∧ env.settled = some settled ∧
    Json.memberEq settled (str "status") (.str (str "settled_pending")) = true ∧
    api.completion env settled d.state = some u ∧ u.bindable = true

theorem Env.reads_unique {d d' d'' : Decoder api.σ} {n : ℕ} {chunks : List (Option (List ℕ))}
    (h : env.Reads api yields d n chunks d') (h' : env.Reads api yields d n chunks d'') :
    d' = d'' := by
  obtain ⟨bytes, events, rfl, hfeed, -⟩ := h
  obtain ⟨bytes', events', hbytes, hfeed', -⟩ := h'
  obtain rfl := List.map_injective_iff.mpr (Option.some_injective _) hbytes
  rw [hfeed] at hfeed'
  cases hfeed'
  rfl

/-- Receiving completes the record exactly when the output is delivered, and
otherwise leaves the ledger alone. -/
theorem receive_spec {s : State} (hs : s.yielded = 0) :
    wp (receive env contractId api yields)
      (fun _ s' => env.Delivers api yields ∧ s.jobs.SameElsewhere s'.jobs contractId ∧
        s'.jobs.status contractId = (s.jobs.status contractId).map fun _ => .completed)
      (fun _ s' => ¬ env.Delivers api yields ∧ s'.jobs = s.jobs) s := by
  unfold receive
  rw [wp_bind]
  have hbody := @readBody_spec env api yields env.body api.init s
  rw [hs] at hbody
  refine wp_mono hbody ?_ ?_
  · rintro d s₁ ⟨hjobs, hreads⟩
    have hiff : env.Delivers api yields ↔ ∃ settled u, api.finish d = .ok () ∧
        env.sign = none ∧ env.settled = some settled ∧
        Json.memberEq settled (str "status") (.str (str "settled_pending")) = true ∧
        api.completion env settled d.state = some u ∧ u.bindable = true := by
      constructor
      · rintro ⟨d', settled, u, hreads', h⟩
        obtain rfl := Env.reads_unique hreads hreads'
        exact ⟨settled, u, h⟩
      · rintro ⟨settled, u, h⟩
        exact ⟨d, settled, u, hreads, h⟩
    rw [hiff]
    cases hfinish : api.finish d with
    | error e => exact ⟨by simp, hjobs⟩
    | ok u =>
    dsimp only
    rw [wp_bind]
    cases hsign : env.sign with
    | some e => exact ⟨by simp, hjobs⟩
    | none =>
    rw [wp_fault_none, wp_bind]
    cases hsettled : env.settled with
    | none => exact ⟨by simp, hjobs⟩
    | some settled =>
    rw [awaitValue, wp_orThrow_some, wp_bind]
    by_cases hstatus : Json.memberEq settled (str "status") (.str (str "settled_pending")) = true
    · rw [wp_only_neg (by simpa using hstatus), wp_bind]
      cases hcompletion : api.completion env settled d.state with
      | none =>
        refine ⟨?_, hjobs⟩
        rintro ⟨settled', u', -, -, h, -, h', -⟩
        cases h
        exact absurd (h'.symm.trans hcompletion) (by simp)
      | some u =>
        rw [awaitValue, wp_orThrow_some]
        unfold setStatus
        simp only [wp_bind, wp_get]
        cases hset : s₁.jobs.setStatus contractId u with
        | none =>
          refine ⟨?_, hjobs⟩
          rintro ⟨settled', u', -, -, h, -, h', hbindable⟩
          cases h
          rw [hcompletion] at h'
          cases h'
          rw [Jobs.setStatus, if_pos hbindable] at hset
          cases hset
        | some jobs =>
          obtain ⟨hother, hself⟩ := Jobs.setStatus_spec hset
          rw [hjobs] at hother hself
          have hbindable : u.bindable = true := by
            by_contra hno
            rw [Jobs.setStatus, if_neg hno] at hset
            cases hset
          refine ⟨⟨settled, u, by simp, by simp, by simp, hstatus, hcompletion, hbindable⟩, hother, ?_⟩
          rw [← api.completes env settled d.state u hcompletion]
          exact hself
    · rw [wp_only_pos hstatus]
      refine ⟨?_, hjobs⟩
      rintro ⟨settled', u', -, -, h, hok, -⟩
      cases h
      exact hstatus hok
  · rintro e s₁ ⟨hjobs, hno⟩
    refine ⟨?_, hjobs⟩
    rintro ⟨d, settled, u, hreads, -⟩
    exact hno d hreads

/-- A run gets as far as its record. -/
def Begins (env : Env) (jobs : Jobs) (contractId : Str) (job : NewJob) : Prop :=
  env.Prepares ∧ (jobs.begin contractId job).isSome = true

/-- The request leaves for the provider. -/
def Env.Dispatches (env : Env) : Prop := env.payload = none ∧ env.postStream = none

/-- How a run of the buyer leaves the ledger. -/
def Outcome (env : Env) (api : DecoderApi) (yields : Bool) (jobs : Jobs) (contractId : Str)
    (job : NewJob) (s : State) : Prop :=
  (¬ Begins env jobs contractId job ∧ s.jobs = jobs) ∨
    (Begins env jobs contractId job ∧ jobs.SameElsewhere s.jobs contractId ∧
      ((¬ env.Dispatches ∧ s.jobs.status contractId =
          some ((jobs.status contractId).getD .accepted)) ∨
        (env.Dispatches ∧ env.Delivers api yields ∧
          s.jobs.status contractId = some .completed) ∨
        (env.Dispatches ∧ ¬ env.Delivers api yields ∧
          s.jobs.status contractId = some .resultUnknown)))

/-- **How a run of the buyer can end.** -/
theorem deliver_cases (env : Env) (api : DecoderApi) (yields : Bool) (jobs : Jobs)
    (contractId : Str) (job : NewJob) :
    Outcome env api yields jobs contractId job
      (final (deliver env contractId job api yields) ⟨jobs, 0⟩) := by
  refine wp_final.mp ?_
  unfold deliver
  rw [wp_bind]
  refine wp_mono (prepare_spec _) ?_ ?_
  on_goal 2 =>
    rintro _ s ⟨hno, rfl⟩
    exact Or.inl ⟨fun h => hno h.1, rfl⟩
  rintro _ s ⟨hprepares, rfl⟩
  rw [wp_bind]
  unfold beginJob
  simp only [wp_bind, wp_get]
  cases hbegin : jobs.begin contractId job with
  | none => exact Or.inl ⟨fun h => absurd h.2 (by simp [hbegin]), rfl⟩
  | some p =>
  obtain ⟨created, jobs'⟩ := p
  have hbegins : Begins env jobs contractId job := ⟨hprepares, by simp [hbegin]⟩
  obtain ⟨hsame', hself⟩ := Jobs.begin_spec hbegin
  have hother : jobs.SameElsewhere jobs' contractId := hsame'
  have hstatus : jobs'.status contractId = some ((jobs.status contractId).getD .accepted) := by
    rcases hself with ⟨-, hnone, haccepted⟩ | ⟨-, rfl, hsome⟩
    · rw [haccepted, hnone]
      rfl
    · obtain ⟨st, hst⟩ := Option.ne_none_iff_exists'.mp hsome
      rw [hst]
      rfl
  rw [awaitValue, wp_orThrow_some, wp_modify, wp_bind]
  cases hpayload : env.payload with
  | some e =>
    exact Or.inr ⟨hbegins, hother, Or.inl ⟨fun h => absurd (h.1.symm.trans hpayload) (by simp),
      hstatus⟩⟩
  | none =>
  rw [wp_fault_none, wp_bind]
  cases hpost : env.postStream with
  | some e =>
    exact Or.inr ⟨hbegins, hother, Or.inl ⟨fun h => absurd (h.2.symm.trans hpost) (by simp),
      hstatus⟩⟩
  | none =>
  have hdispatches : env.Dispatches := ⟨hpayload, hpost⟩
  rw [wp_fault_none, wp_tryCatch]
  refine wp_mono (receive_spec rfl) ?_ ?_
  · rintro _ s ⟨hdelivers, hsame, hcompleted⟩
    dsimp only at hsame hcompleted
    rw [hstatus] at hcompleted
    exact Or.inr ⟨hbegins, hother.trans hsame, Or.inr (Or.inl ⟨hdispatches, hdelivers, hcompleted⟩)⟩
  · rintro e s ⟨hno, hjobs⟩
    dsimp only at hjobs
    unfold setStatus
    have hset : s.jobs.setStatus contractId { status := .resultUnknown } =
        some (Function.update s.jobs contractId ((s.jobs contractId).map
          ({ status := .resultUnknown } : StatusUpdate).apply)) := if_pos rfl
    simp only [wp_bind, wp_get]
    rw [hset, awaitValue, wp_orThrow_some, wp_modify, wp_throw]
    obtain ⟨hother', hself'⟩ := Jobs.setStatus_spec hset
    have hsame : jobs'.SameElsewhere s.jobs contractId := fun c _ => by rw [hjobs]
    refine Or.inr ⟨hbegins, (hother.trans hsame).trans hother', Or.inr (Or.inr ⟨hdispatches,
      hno, ?_⟩)⟩
    rw [hself', hjobs, hstatus]
    rfl

end Requester

end AI2Apps.ModelSharing
