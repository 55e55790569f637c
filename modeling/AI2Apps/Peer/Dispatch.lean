import AI2Apps.Peer.Transports

/-!
# At most one dispatch across transports

A transport that may have handed the complete request to the network must not
raise an error that is retryable with a known result, because the fallback then
sends the request again.  The file determines, for each transport and over every
placement of failures, exactly when that happens.

* `DirectQuic.sendRequest_spec`: what is on the network when the request is written.
* `DirectQuic.honest_postStream_iff`, `honest_post_iff`: QUIC is honest except
  when the drain after `REQUEST_END` fails.
* `Relay.honest_postStream_iff`, `honest_post_iff`: the relay is honest except
  when the client fails after its last write, or the relay answers with one of
  the retryable statuses below 500.
* `directThenRelay_once`: an honest direct transport leaves the fallback nothing
  to send twice.
* `Exchange.atMostOneDispatch_iff`: both transports and the fallback together.
-/

namespace AI2Apps.Peer

open Faults

/-- When the complete request may be on the network, a transport error is not
retryable with a known result. -/
def Honest {σ : Type} (complete : σ → Prop) (x : EStateM Exc σ Unit) (s : σ) : Prop :=
  wp x (fun _ _ => True)
    (fun e s' => complete s' → ∀ t, e = .transport t →
      ¬ (t.retryable = true ∧ t.resultUnknown = false)) s

section Honest

variable {σ : Type} {complete : σ → Prop} {s : σ}

/-- Errors that never let a caller send again. -/
def Final (e : Exc) : Prop := ∀ t, e = .transport t → t.retryable = false

theorem honest_of_final {x : EStateM Exc σ Unit}
    (h : wp x (fun _ _ => True) (fun e _ => Final e) s) : Honest complete x s := by
  refine wp_mono h (fun _ _ h => h) fun e _ hfinal _ t ht hbad => ?_
  rw [hfinal t ht] at hbad
  exact absurd hbad.1 (by simp)

theorem honest_await (o : Option NetExc) : Honest complete (await o) s := by
  refine honest_of_final ?_
  cases o <;> simp [Final]

/-- A continuation that is honest wherever it starts changes nothing. -/
theorem honest_bind {α : Type} {x : EStateM Exc σ α} {k : α → EStateM Exc σ Unit}
    (hk : ∀ a s', Honest complete (k a) s') :
    Honest complete (x >>= k) s ↔
      wp x (fun _ _ => True) (fun e s' => complete s' → ∀ t, e = .transport t →
        ¬ (t.retryable = true ∧ t.resultUnknown = false)) s := by
  unfold Honest
  rw [wp_bind]
  exact ⟨fun h => wp_mono h (fun _ _ _ => trivial) fun _ _ h => h,
    fun h => wp_mono h (fun a s' _ => hk a s') fun _ _ h => h⟩

end Honest

/-! ## Direct QUIC -/

namespace DirectQuic

variable {env : Env} {ownGrant path grant : Str} {payload : List ℕ}

/-- Nothing fails up to the write of `REQUEST_END`. -/
def Env.Sends (env : Env) (payload : List ℕ) : Prop :=
  env.connect = none ∧ env.createStream = none ∧ env.begin = none ∧ env.writeHello = none ∧
    env.drainHello = none ∧ env.readHello = none ∧ env.checkHello = none ∧ env.finish = none ∧
    env.writeHead = none ∧ (∀ p ∈ (chunks payload).zipIdx, env.writeBody p.2 = none) ∧
    env.writeEnd = none

/-- The first failure is the drain after `REQUEST_END`, and the exception clause
takes it for an unavailable transport. -/
def Env.DrainFails (env : Env) (payload : List ℕ) : Prop :=
  env.Sends payload ∧ (∃ e, env.drain = some e ∧ caught e = true) ∧ env.exit = none

/-- The request is not yet on the network as a whole. -/
def Pending (s : State) : Prop := s.dispatched = false ∧ ¬ Complete s

theorem pending_init : Pending init := ⟨rfl, by simp [Complete, init]⟩

theorem Pending.hand {s : State} {r : Record} (h : Pending s) (hr : r ≠ .requestEnd) :
    Pending { s with sent := s.sent ++ [r] } := by
  refine ⟨h.1, ?_⟩
  have hs : Record.requestEnd ∉ s.sent := h.2
  simp [Complete, hs, hr.symm]

/-- What an early failure leaves: a network exception, and an incomplete request. -/
def Early (env : Env) (payload : List ℕ) (e : Exc) (s : State) : Prop :=
  ¬ env.Sends payload ∧ Pending s ∧ ∃ ne, e = .net ne

/-- One await before the end of the request. -/
theorem wp_await_early {α : Type} {o : Option NetExc} {s : State}
    {k : Unit → EStateM Exc State α} {Q : α → State → Prop} (hs : Pending s)
    (hno : o ≠ none → ¬ env.Sends payload)
    (hok : o = none → wp (k ()) Q (Early env payload) s) :
    wp (await o >>= k) Q (Early env payload) s := by
  rw [wp_bind]
  cases o with
  | none => exact hok rfl
  | some e => exact ⟨hno (by simp), hs, e, rfl⟩

/-- Handing a record over. -/
theorem wp_hand_then {α : Type} {r : Record} {s : State} {k : Unit → EStateM Exc State α}
    {Q : α → State → Prop} {E : Exc → State → Prop} :
    wp (hand r >>= k) Q E s ↔ wp (k ()) Q E { s with sent := s.sent ++ [r] } := by
  rw [wp_bind, hand, wp_modify]

/-- The request is not complete while its body records are written. -/
theorem sendBody_spec {s : State} (hs : Pending s) :
    wp (forM (chunks payload).zipIdx fun p : List ℕ × ℕ => do
        await (env.writeBody p.2)
        hand (.requestBody p.1))
      (fun _ s' => (∀ p ∈ (chunks payload).zipIdx, env.writeBody p.2 = none) ∧ Pending s')
      (Early env payload) s := by
  have hloop := @wp_forM Exc State (List ℕ × ℕ) (Early env payload) s (chunks payload).zipIdx
    (fun p => do
      await (env.writeBody p.2)
      DirectQuic.hand (.requestBody p.1))
    (fun done s' => (∀ p ∈ done, env.writeBody p.2 = none) ∧ Pending s')
  refine hloop ?_ ⟨by simp, hs⟩
  rintro done p rest s' heq ⟨hdone, hs'⟩
  refine wp_await_early hs' (fun hp hsends => hp (hsends.2.2.2.2.2.2.2.2.2.1 p ?_)) fun hp => ?_
  · rw [heq]
    simp
  · rw [DirectQuic.hand, wp_modify]
    refine ⟨fun q hq => ?_, hs'.hand (by simp)⟩
    rcases List.mem_append.mp hq with hq | hq
    · exact hdone q hq
    · rw [List.mem_singleton.mp hq, hp]

/-- **What is on the network when the request is written**: everything if no
point failed, and never the final record otherwise. -/
theorem sendRequest_spec :
    wp (sendRequest env path payload)
      (fun _ s => env.Sends payload ∧ s.dispatched = false ∧ Complete s) (Early env payload)
      init := by
  unfold sendRequest
  have hp0 := pending_init
  refine wp_await_early hp0 (fun h hs => h hs.1) fun h1 => ?_
  refine wp_await_early hp0 (fun h hs => h hs.2.1) fun h2 => ?_
  refine wp_await_early hp0 (fun h hs => h hs.2.2.1) fun h3 => ?_
  refine wp_await_early hp0 (fun h hs => h hs.2.2.2.1) fun h4 => ?_
  rw [wp_hand_then]
  have hp1 := hp0.hand (show Record.clientHello ≠ .requestEnd by simp)
  refine wp_await_early hp1 (fun h hs => h hs.2.2.2.2.1) fun h5 => ?_
  refine wp_await_early hp1 (fun h hs => h hs.2.2.2.2.2.1) fun h6 => ?_
  refine wp_await_early hp1 (fun h hs => h hs.2.2.2.2.2.2.1) fun h7 => ?_
  refine wp_await_early hp1 (fun h hs => h hs.2.2.2.2.2.2.2.1) fun h8 => ?_
  refine wp_await_early hp1 (fun h hs => h hs.2.2.2.2.2.2.2.2.1) fun h9 => ?_
  rw [wp_hand_then]
  have hp2 := hp1.hand (show Record.requestHead path ≠ .requestEnd by simp)
  rw [wp_bind]
  refine wp_mono (sendBody_spec hp2) ?_ fun _ _ h => h
  rintro _ s ⟨h10, hs⟩
  refine wp_await_early hs (fun h hs => h hs.2.2.2.2.2.2.2.2.2.2) fun h11 => ?_
  exact ⟨⟨h1, h2, h3, h4, h5, h6, h7, h8, h9, h10, h11⟩, hs.1, by simp [Complete]⟩

/-- Either the whole request is on the network, or it failed before its end. -/
theorem sendRequest_cases (env : Env) (path : Str) (payload : List ℕ) :
    (∃ s, (sendRequest env path payload).run init = .ok () s ∧ env.Sends payload ∧
      s.dispatched = false ∧ Complete s) ∨
    (∃ e s, (sendRequest env path payload).run init = .error (.net e) s ∧ ¬ env.Sends payload ∧
      Pending s) := by
  have hspec := @sendRequest_spec env path payload
  unfold wp at hspec
  cases hrun : (sendRequest env path payload).run init with
  | ok u s =>
    rw [hrun] at hspec
    exact Or.inl ⟨s, rfl, hspec⟩
  | error e s =>
    rw [hrun] at hspec
    obtain ⟨hno, hs, ne, rfl⟩ := hspec
    exact Or.inr ⟨ne, s, rfl, hno, hs⟩

/-- Reading the head of the answer leaves a dispatched request dispatched. -/
theorem readAnswer_spec {s : State} (hs : s.dispatched = true) :
    wp (do await env.readHead; await env.decodeHead) (fun _ _ => True)
      (fun e s' => s'.dispatched = true ∧ ∃ ne, e = .net ne) s := by
  rw [wp_bind]
  cases env.readHead with
  | some e => exact ⟨hs, e, rfl⟩
  | none =>
    cases env.decodeHead with
    | some e => exact ⟨hs, e, rfl⟩
    | none => trivial

/-- What `postStream` raises once the grant is its own: nothing misleading before
the end of the request or after the drain. -/
theorem honest_postStream_iff :
    Honest Complete (postStream env ownGrant path grant payload) init ↔
      ¬ (grant = ownGrant ∧ env.DrainFails payload) := by
  unfold Honest postStream
  by_cases hg : grant = ownGrant
  · simp only [hg, ne_eq, not_true_eq_false, if_false, true_and, wp_bind, wp_tryCatch]
    rcases sendRequest_cases env path payload with ⟨s, hrun, hsends, hd, hc⟩ |
        ⟨e, s, hrun, hno, -, hc⟩
    · rw [wp_of_ok hrun]
      simp only [wp_bind]
      cases hdrain : env.drain with
      | none =>
        have hcalm : ¬ env.DrainFails payload := by
          rintro ⟨-, ⟨e, he, -⟩, -⟩
          rw [hdrain] at he
          exact absurd he (by simp)
        refine iff_of_true ?_ hcalm
        rw [wp_await_none, wp_bind, wp_modify]
        refine wp_mono (readAnswer_spec rfl) (fun _ s' _ => honest_await env.status) ?_
        rintro _ s' ⟨hs', e, rfl⟩
        dsimp only
        by_cases hcaught : caught e = true
        · rw [if_pos hcaught, wp_bind]
          cases env.exit with
          | none => simp [hs']
          | some e' => simp
        · rw [if_neg hcaught]
          simp
      | some e =>
        rw [wp_await_some]
        cases hexit : env.exit with
        | none =>
          by_cases hcaught : caught e = true
          · refine iff_of_false ?_ (not_not.mpr ⟨hsends, ⟨e, hdrain, hcaught⟩, hexit⟩)
            simp [hcaught, hd, hc]
          · refine iff_of_true ?_ ?_
            · simp [hcaught]
            · rintro ⟨-, ⟨e', he', hce⟩, -⟩
              rw [hdrain] at he'
              exact hcaught (by rw [Option.some.inj he']; exact hce)
        | some e' =>
          refine iff_of_true ?_ ?_
          · by_cases hcaught : caught e = true <;> simp [hcaught]
          · rintro ⟨-, -, h⟩
            rw [hexit] at h
            exact absurd h (by simp)
    · rw [wp_of_error hrun]
      refine iff_of_true ?_ fun h => hno h.1
      by_cases hcaught : caught e = true <;> cases env.exit <;> simp [hcaught, hc]
  · refine iff_of_true ?_ fun h => hg h.1
    simp [hg, Complete, init]

/-- Reading the body raises nothing a caller may retry. -/
theorem readBody_spec (maxResponseBytes : ℕ) (reads : List BodyRead) (count : ℕ) (s : State) :
    wp (readBody maxResponseBytes count reads) (fun _ _ => True) (fun e _ => Final e) s := by
  induction reads generalizing count with
  | nil => simp [readBody, Final]
  | cons read reads ih =>
    cases read with
    | finish => simp [readBody]
    | fails e => simp [readBody, Final]
    | chunk bytes =>
      rw [readBody]
      by_cases hlimit : maxResponseBytes < count + bytes.length
      · simp [hlimit, Final]
      · simpa [hlimit] using ih (count + bytes.length)

/-- The body is honest wherever it starts. -/
theorem honest_body (env : Env) (maxResponseBytes : ℕ) (s : State) :
    Honest Complete (body env maxResponseBytes) s := by
  unfold body
  rw [honest_bind fun _ s' => honest_await env.closeBody, wp_tryCatch]
  refine wp_mono (readBody_spec maxResponseBytes env.body 0 s) (fun _ _ h => h)
    fun e s' hfinal => ?_
  refine @honest_of_final State Complete s' _ ?_
  rw [wp_bind]
  cases env.closeBody with
  | some ce => simp [Final]
  | none =>
    rw [wp_await_none]
    split
    · simp [Final]
    · simp [Final]
    · simp [Final]
    · exact hfinal

theorem honest_post_iff {maxResponseBytes : ℕ} :
    Honest Complete (post env ownGrant path grant payload maxResponseBytes) init ↔
      ¬ (grant = ownGrant ∧ env.DrainFails payload) := by
  unfold post
  rw [honest_bind fun _ s' => honest_body env maxResponseBytes s']
  exact honest_postStream_iff

end DirectQuic

/-! ## HTTPS relay -/

namespace Relay

variable {env : Env} {path grant : Str}

/-- Nothing fails before the last write of the request. -/
def Env.Sends (env : Env) : Prop :=
  env.acquire = none ∧ env.connect = none ∧ ∀ i < env.writes, env.write i = none

/-- What fails first once the last write has been handed over, up to the
response head. -/
def Env.lateFailure (env : Env) : Option NetExc := (env.write env.writes).or env.readHead

/-- The statuses that are retryable with a known result. -/
def Env.Refused (env : Env) : Prop := env.status ∈ [401, 403, 409, 429]

/-- A streamed request is taken for undelivered after its last write. -/
def Env.StreamMisleads (env : Env) : Prop :=
  env.Sends ∧ env.close = none ∧
    ((∃ e, env.lateFailure = some e ∧ caught e = true) ∨ (env.lateFailure = none ∧ env.Refused))

/-- A plain request is taken for undelivered after its last write.  Closing the
client comes before its `except` clause, so what closing raises is what counts. -/
def Env.PostMisleads (env : Env) : Prop :=
  env.Sends ∧
    ((∃ e, env.close.or (env.lateFailure.or env.readBody) = some e ∧ caught e = true) ∨
      (env.close.or (env.lateFailure.or env.readBody) = none ∧ env.Refused))

/-- The writes of the request: one more is out at each, also when its await raises. -/
theorem writes_spec (env : Env) :
    wp (forM (List.range (env.writes + 1)) fun i => do
        modify fun s : State => { s with written := s.written + 1 }
        await (env.write i))
      (fun _ s => (∀ i ≤ env.writes, env.write i = none) ∧ s.written = env.writes + 1)
      (fun e s => ∃ ne i, e = .net ne ∧ i ≤ env.writes ∧ s.written = i + 1 ∧
        env.write i = some ne ∧ ∀ j < i, env.write j = none) init := by
  have hloop := @wp_forM Exc State ℕ (fun e s => ∃ ne i, e = .net ne ∧ i ≤ env.writes ∧
      s.written = i + 1 ∧ env.write i = some ne ∧ ∀ j < i, env.write j = none) init
    (List.range (env.writes + 1))
    (fun i => do
      modify fun s : State => { s with written := s.written + 1 }
      await (env.write i))
    (fun done s => s.written = done.length ∧ ∀ j < done.length, env.write j = none)
  refine wp_mono (hloop ?_ ⟨rfl, by simp⟩) ?_ fun _ _ h => h
  · rintro done i rest s heq ⟨hw, hdone⟩
    have hlen : (List.range (env.writes + 1)).length = done.length + 1 + rest.length := by
      rw [heq]
      simp
      omega
    have hi : i = done.length := by
      have hget : (List.range (env.writes + 1))[done.length]? = some i := by rw [heq]; simp
      rw [List.length_range] at hlen
      rw [List.getElem?_range (by omega)] at hget
      exact (Option.some.inj hget).symm
    rw [wp_bind, wp_modify]
    cases hwi : env.write i with
    | some ne =>
      rw [wp_await_some]
      rw [List.length_range] at hlen
      exact ⟨ne, i, rfl, by omega, by simp [hw, hi], hwi, by rw [hi]; exact hdone⟩
    | none =>
      rw [wp_await_none]
      refine ⟨by simp [hw], fun j hj => ?_⟩
      rw [List.length_append, List.length_singleton] at hj
      rcases Nat.lt_succ_iff_lt_or_eq.mp hj with hj | hj
      · exact hdone j hj
      · rw [hj, ← hi, hwi]
  · rintro _ s ⟨hw, hdone⟩
    rw [List.length_range] at hw hdone
    exact ⟨fun i hi => hdone i (by omega), hw⟩

/-- The client call returns with everything written, fails before the last write,
or fails after it. -/
theorem send_cases (env : Env) :
    (∃ s, (send env).run init = .ok () s ∧ env.Sends ∧ env.lateFailure = none ∧
      Complete env s) ∨
    (∃ e s, (send env).run init = .error (.net e) s ∧ ¬ env.Sends ∧ ¬ Complete env s) ∨
    (∃ e s, (send env).run init = .error (.net e) s ∧ env.Sends ∧ env.lateFailure = some e ∧
      Complete env s) := by
  have hspec : wp (send env)
      (fun _ s => env.Sends ∧ env.lateFailure = none ∧ Complete env s)
      (fun e s => ∃ ne, e = .net ne ∧ ((¬ env.Sends ∧ ¬ Complete env s) ∨
        (env.Sends ∧ env.lateFailure = some ne ∧ Complete env s))) init := by
    have hstart : ¬ Complete env init := by simp [Complete, init]
    unfold send
    rw [wp_bind]
    cases hacq : env.acquire with
    | some e => exact ⟨e, rfl, Or.inl ⟨fun h => absurd (h.1.symm.trans hacq) (by simp), hstart⟩⟩
    | none =>
    rw [wp_await_none, wp_bind]
    cases hcon : env.connect with
    | some e => exact ⟨e, rfl, Or.inl ⟨fun h => absurd (h.2.1.symm.trans hcon) (by simp), hstart⟩⟩
    | none =>
    rw [wp_await_none, wp_bind]
    refine wp_mono (writes_spec env) ?_ ?_
    · rintro _ s ⟨hall, hw⟩
      have hsends : env.Sends := ⟨hacq, hcon, fun i hi => hall i (by omega)⟩
      have hlate : env.lateFailure = env.readHead := by
        rw [Env.lateFailure, hall env.writes (by omega), Option.none_or]
      cases hhead : env.readHead with
      | none => exact ⟨hsends, hlate.trans hhead, hw⟩
      | some e => exact ⟨e, rfl, Or.inr ⟨hsends, hlate.trans hhead, hw⟩⟩
    · rintro e s ⟨ne, i, rfl, hi, hw, hwi, hbefore⟩
      refine ⟨ne, rfl, ?_⟩
      rcases Nat.lt_or_eq_of_le hi with hlt | heq
      · refine Or.inl ⟨fun h => absurd ((h.2.2 i hlt).symm.trans hwi) (by simp), ?_⟩
        rw [Complete, hw]
        omega
      · refine Or.inr ⟨⟨hacq, hcon, fun j hj => hbefore j (by omega)⟩, ?_, ?_⟩
        · rw [Env.lateFailure, ← heq, hwi, Option.some_or]
        · rw [Complete, hw, heq]
  unfold wp at hspec
  cases hrun : (send env).run init with
  | ok u s =>
    rw [hrun] at hspec
    exact Or.inl ⟨s, rfl, hspec⟩
  | error e s =>
    rw [hrun] at hspec
    obtain ⟨ne, rfl, h | h⟩ := hspec
    · exact Or.inr (Or.inl ⟨ne, s, rfl, h⟩)
    · exact Or.inr (Or.inr ⟨ne, s, rfl, h⟩)

/-- A rejected request misleads exactly when its status is one of the refusals. -/
theorem rejected_misleads_iff :
    ((rejected env.status).retryable = true ∧ (rejected env.status).resultUnknown = false) ↔
      env.Refused := by
  simp only [rejected, Env.Refused, List.mem_cons, decide_eq_true_eq, decide_eq_false_iff_not,
    List.not_mem_nil, or_false]
  omega

/-- The checks before the client is made raise nothing a caller may retry. -/
theorem honest_checkRequest {allowed : Bool} {x : EStateM Exc State Unit} :
    Honest (Complete env) (do checkRequest allowed grant; x) init ↔
      (allowed = true → 1 ≤ grant.length → grant.length ≤ 8192 →
        Honest (Complete env) x init) := by
  unfold Honest
  rw [wp_bind]
  unfold checkRequest
  cases allowed with
  | false => simp
  | true =>
    by_cases hg : 1 ≤ grant.length ∧ grant.length ≤ 8192
    · simp [hg]
    · simp only [hg, not_true_eq_false, not_false_eq_true, if_true, if_false, wp_throw]
      refine iff_of_true ?_ fun _ h1 h2 => absurd ⟨h1, h2⟩ hg
      simp

theorem honest_postStream_iff :
    Honest (Complete env) (postStream env path grant) init ↔
      ¬ (path = modelSharePath ∧ 1 ≤ grant.length ∧ grant.length ≤ 8192 ∧ env.StreamMisleads) := by
  unfold postStream
  rw [honest_checkRequest]
  by_cases hp : path = modelSharePath
  on_goal 2 => exact iff_of_true (fun h => absurd h (by simp [hp])) fun h => hp h.1
  by_cases hg : 1 ≤ grant.length ∧ grant.length ≤ 8192
  on_goal 2 => exact iff_of_true (fun _ h1 h2 => absurd ⟨h1, h2⟩ hg) fun h => hg ⟨h.2.1, h.2.2.1⟩
  simp only [hp, hg, decide_true, true_imp_iff, true_and]
  unfold Honest
  rw [wp_bind, wp_tryCatch]
  rcases send_cases env with ⟨s, hrun, hsends, hlate, hc⟩ | ⟨e, s, hrun, hno, hc⟩ |
      ⟨e, s, hrun, hsends, hlate, hc⟩
  · rw [wp_of_ok hrun]
    have hiff : env.StreamMisleads ↔ env.close = none ∧ env.Refused := by
      simp [Env.StreamMisleads, hsends, hlate]
    rw [hiff]
    by_cases hs : env.status = 200
    · refine iff_of_true (by simp [hs]) ?_
      rintro ⟨-, hr⟩
      rw [Env.Refused, hs] at hr
      simp at hr
    · simp only [ne_eq, hs, not_false_eq_true, if_true, wp_bind]
      cases hclose : env.close with
      | some e => exact iff_of_true (by simp) (by simp)
      | none =>
        simp only [wp_await_none, wp_throw, hc, true_imp_iff, true_and]
        refine ⟨fun h hr => h _ rfl (rejected_misleads_iff.mpr hr), ?_⟩
        rintro hr t ht hbad
        obtain rfl : rejected env.status = t := Exc.transport.inj ht
        exact hr (rejected_misleads_iff.mp hbad)
  · rw [wp_of_error hrun]
    refine iff_of_true ?_ fun h => hno h.1
    by_cases hcaught : caught e = true <;> cases env.close <;> simp [hcaught, hc]
  · rw [wp_of_error hrun]
    have hiff : env.StreamMisleads ↔ env.close = none ∧ caught e = true := by
      simp [Env.StreamMisleads, hsends, hlate]
    rw [hiff]
    by_cases hcaught : caught e = true <;> cases env.close <;>
      simp [hcaught, hc, unavailable]

/-- Reading the streamed body raises nothing a caller may retry. -/
theorem readBounded_spec (maxResponseBytes : ℕ) (reads : List BodyRead) (count : ℕ) (s : State) :
    wp (readBounded maxResponseBytes count reads) (fun _ _ => True) (fun e _ => Final e) s := by
  induction reads generalizing count with
  | nil => simp [readBounded]
  | cons read reads ih =>
    cases read with
    | finish => simp [readBounded]
    | fails e => simp [readBounded, Final]
    | chunk bytes =>
      rw [readBounded]
      by_cases hlimit : maxResponseBytes < count + bytes.length
      · simp [hlimit, Final]
      · simpa [hlimit] using ih (count + bytes.length)

theorem honest_boundedBody (env : Env) (maxResponseBytes : ℕ) (s : State) :
    Honest (Complete env) (boundedBody env maxResponseBytes) s := by
  unfold boundedBody
  rw [honest_bind fun _ s' => honest_await env.close, wp_tryCatch]
  refine wp_mono (readBounded_spec maxResponseBytes env.body 0 s) (fun _ _ h => h)
    fun e s' hfinal => ?_
  refine @honest_of_final State (Complete env) s' _ ?_
  rw [wp_bind]
  cases env.close with
  | some ce => simp [Final]
  | none => exact hfinal

/-- The client call of `post`, its body and its closing. -/
theorem client_cases (env : Env) :
    (∃ s, (withClient env).run init = .ok () s ∧ env.Sends ∧
      env.close.or (env.lateFailure.or env.readBody) = none ∧ Complete env s) ∨
    (∃ e s, (withClient env).run init = .error (.net e) s ∧
      (env.Sends → env.close.or (env.lateFailure.or env.readBody) = some e) ∧
      (Complete env s ↔ env.Sends)) := by
  have hspec : wp (withClient env)
      (fun _ s => env.Sends ∧ env.close.or (env.lateFailure.or env.readBody) = none ∧
        Complete env s)
      (fun e s => ∃ ne, e = .net ne ∧
        (env.Sends → env.close.or (env.lateFailure.or env.readBody) = some ne) ∧
        (Complete env s ↔ env.Sends)) init := by
    unfold withClient
    rw [wp_bind, wp_tryCatch, wp_bind]
    rcases send_cases env with ⟨s, hrun, hsends, hlate, hc⟩ | ⟨e, s, hrun, hno, hc⟩ |
        ⟨e, s, hrun, hsends, hlate, hc⟩
    · rw [wp_of_ok hrun]
      cases hb : env.readBody <;> cases hclose : env.close <;> simp [hsends, hlate, hc]
    · rw [wp_of_error hrun, wp_bind]
      cases hclose : env.close <;> simp [hno, hc]
    · rw [wp_of_error hrun, wp_bind]
      cases hclose : env.close <;> simp [hsends, hlate, hc]
  unfold wp at hspec
  cases hrun : (withClient env).run init with
  | ok u s =>
    rw [hrun] at hspec
    exact Or.inl ⟨s, rfl, hspec⟩
  | error e s =>
    rw [hrun] at hspec
    obtain ⟨ne, rfl, h⟩ := hspec
    exact Or.inr ⟨ne, s, rfl, h⟩

theorem honest_post_iff {maxResponseBytes : ℕ} :
    Honest (Complete env) (post env path grant maxResponseBytes) init ↔
      ¬ (path ∈ messagerPaths ∧ 1 ≤ grant.length ∧ grant.length ≤ 8192 ∧ env.PostMisleads) := by
  unfold post
  rw [honest_checkRequest]
  by_cases hp : path ∈ messagerPaths
  on_goal 2 => exact iff_of_true (fun h => absurd h (by simp [hp])) fun h => hp h.1
  by_cases hg : 1 ≤ grant.length ∧ grant.length ≤ 8192
  on_goal 2 => exact iff_of_true (fun _ h1 h2 => absurd ⟨h1, h2⟩ hg) fun h => hg ⟨h.2.1, h.2.2.1⟩
  simp only [hp, hg, decide_true, true_imp_iff, true_and]
  unfold Honest
  rw [wp_bind, wp_tryCatch]
  rcases client_cases env with ⟨s, hrun, hsends, hall, hc⟩ | ⟨e, s, hrun, hfirst, hc⟩
  · rw [wp_of_ok hrun]
    have hiff : env.PostMisleads ↔ env.Refused := by
      simp [Env.PostMisleads, hsends, hall]
    rw [hiff]
    by_cases hs : env.status ∈ [200, 201]
    · have hnot : ¬ env.Refused := by
        rw [Env.Refused]
        simp only [List.mem_cons, List.not_mem_nil, or_false] at hs ⊢
        omega
      by_cases hl : maxResponseBytes < env.bodyLength <;>
        simp [hs, hnot, hl]
    · simp only [hs, not_false_eq_true, if_true, wp_bind, wp_throw, hc, true_imp_iff]
      refine ⟨fun h hr => h _ rfl (rejected_misleads_iff.mpr hr), ?_⟩
      rintro hr t ht hbad
      obtain rfl : rejected env.status = t := Exc.transport.inj ht
      exact hr (rejected_misleads_iff.mp hbad)
  · rw [wp_of_error hrun]
    by_cases hsends : env.Sends
    · have hiff : env.PostMisleads ↔ caught e = true := by
        simp [Env.PostMisleads, hsends, hfirst hsends]
      rw [hiff]
      by_cases hcaught : caught e = true <;> simp [hcaught, hc, hsends, unavailable]
    · refine iff_of_true ?_ fun h => hsends h.1
      by_cases hcaught : caught e = true <;> simp [hcaught, hc, hsends, unavailable]

end Relay

/-! ## Both transports -/

section Fallback

variable {direct : EStateM Exc DirectQuic.State Unit} {relay : EStateM Exc Relay.State Unit}
  {s : DirectQuic.State × Relay.State} {Q : Unit → DirectQuic.State × Relay.State → Prop}
  {E : Exc → DirectQuic.State × Relay.State → Prop}

theorem wp_onDirect :
    wp (onDirect direct) Q E s ↔
      wp direct (fun u d => Q u (d, s.2)) (fun e d => E e (d, s.2)) s.1 := by
  unfold wp onDirect EStateM.run
  dsimp only
  cases direct s.1 <;> rfl

theorem wp_onRelay :
    wp (onRelay relay) Q E s ↔
      wp relay (fun u r => Q u (s.1, r)) (fun e r => E e (s.1, r)) s.2 := by
  unfold wp onRelay EStateM.run
  dsimp only
  cases relay s.2 <;> rfl

theorem wp_true (r : Relay.State) : wp relay (fun _ _ => True) (fun _ _ => True) r := by
  unfold wp
  cases relay.run r <;> trivial

/-- An honest direct transport never leaves a complete request to the fallback. -/
theorem directThenRelay_once {env : Relay.Env}
    (h : Honest DirectQuic.Complete direct DirectQuic.init) :
    wp (directThenRelay direct relay)
      (fun _ s => ¬ (DirectQuic.Complete s.1 ∧ Relay.Complete env s.2))
      (fun _ s => ¬ (DirectQuic.Complete s.1 ∧ Relay.Complete env s.2))
      (DirectQuic.init, Relay.init) := by
  have hinit : ¬ Relay.Complete env Relay.init := by simp [Relay.Complete, Relay.init]
  unfold directThenRelay
  rw [wp_tryCatch, wp_onDirect]
  refine wp_mono h (fun _ d _ hboth => hinit hboth.2) fun e d hhonest => ?_
  cases e with
  | net e => exact fun hboth => hinit hboth.2
  | transport t =>
    by_cases hstop : (!t.retryable || t.resultUnknown) = true
    · simp only [hstop, if_true, wp_throw]
      exact fun hboth => hinit hboth.2
    · simp only [hstop, Bool.false_eq_true, if_false, wp_onRelay]
      have hd : ¬ DirectQuic.Complete d := fun hc => hhonest hc t rfl (by simpa using hstop)
      exact wp_mono (wp_true Relay.init) (fun _ _ _ hboth => hd hboth.1)
        fun _ _ _ hboth => hd hboth.1

end Fallback

/-- One call of the fallback transport: the environments of its two transports
and its arguments. -/
structure Exchange where
  direct : DirectQuic.Env
  relay : Relay.Env
  ownGrant : Str
  path : Str
  grant : Str
  payload : List ℕ
  maxResponseBytes : ℕ

namespace Exchange

variable (x : Exchange)

def directStream : EStateM Exc DirectQuic.State Unit :=
  DirectQuic.postStream x.direct x.ownGrant x.path x.grant x.payload

def directPost : EStateM Exc DirectQuic.State Unit :=
  DirectQuic.post x.direct x.ownGrant x.path x.grant x.payload x.maxResponseBytes

def relayStream : EStateM Exc Relay.State Unit := Relay.postStream x.relay x.path x.grant

def relayPost : EStateM Exc Relay.State Unit :=
  Relay.post x.relay x.path x.grant x.maxResponseBytes

/-- After the fallback transport, the request is not complete on both networks. -/
def DeliversOnce (direct : EStateM Exc DirectQuic.State Unit)
    (relay : EStateM Exc Relay.State Unit) : Prop :=
  wp (directThenRelay direct relay)
    (fun _ s => ¬ (DirectQuic.Complete s.1 ∧ Relay.Complete x.relay s.2))
    (fun _ s => ¬ (DirectQuic.Complete s.1 ∧ Relay.Complete x.relay s.2))
    (DirectQuic.init, Relay.init)

/-- At most one dispatch: no transport, and no body it returned, raises a
retryable error with a known result once the request may be out, and the
fallback delivers the request at most once. -/
structure AtMostOneDispatch : Prop where
  directStream : Honest DirectQuic.Complete x.directStream DirectQuic.init
  directBody : ∀ s, Honest DirectQuic.Complete (DirectQuic.body x.direct x.maxResponseBytes) s
  directPost : Honest DirectQuic.Complete x.directPost DirectQuic.init
  relayStream : Honest (Relay.Complete x.relay) x.relayStream Relay.init
  relayBody : ∀ s, Honest (Relay.Complete x.relay)
    (Relay.boundedBody x.relay x.maxResponseBytes) s
  relayPost : Honest (Relay.Complete x.relay) x.relayPost Relay.init
  streamOnce : x.DeliversOnce x.directStream x.relayStream
  postOnce : x.DeliversOnce x.directPost x.relayPost

/-- The drain after `REQUEST_END` fails. -/
def DirectMisleads : Prop := x.grant = x.ownGrant ∧ x.direct.DrainFails x.payload

/-- The relay client fails after its last write, or the relay refuses the request. -/
def RelayMisleads : Prop :=
  1 ≤ x.grant.length ∧ x.grant.length ≤ 8192 ∧
    ((x.path = Relay.modelSharePath ∧ x.relay.StreamMisleads) ∨
      (x.path ∈ Relay.messagerPaths ∧ x.relay.PostMisleads))

/-- **When a request is dispatched at most once**: exactly when neither the drain
after `REQUEST_END` nor the relay after its last write misleads. -/
theorem atMostOneDispatch_iff :
    x.AtMostOneDispatch ↔ ¬ x.DirectMisleads ∧ ¬ x.RelayMisleads := by
  constructor
  · intro h
    refine ⟨DirectQuic.honest_postStream_iff.mp h.directStream, ?_⟩
    rintro ⟨h1, h2, ⟨hp, hm⟩ | ⟨hp, hm⟩⟩
    · exact Relay.honest_postStream_iff.mp h.relayStream ⟨hp, h1, h2, hm⟩
    · exact Relay.honest_post_iff.mp h.relayPost ⟨hp, h1, h2, hm⟩
  · rintro ⟨hd, hr⟩
    have hstream : Honest DirectQuic.Complete x.directStream DirectQuic.init :=
      DirectQuic.honest_postStream_iff.mpr hd
    have hpost : Honest DirectQuic.Complete x.directPost DirectQuic.init :=
      DirectQuic.honest_post_iff.mpr hd
    exact
      { directStream := hstream
        directBody := DirectQuic.honest_body x.direct x.maxResponseBytes
        directPost := hpost
        relayStream := Relay.honest_postStream_iff.mpr fun h =>
          hr ⟨h.2.1, h.2.2.1, Or.inl ⟨h.1, h.2.2.2⟩⟩
        relayBody := Relay.honest_boundedBody x.relay x.maxResponseBytes
        relayPost := Relay.honest_post_iff.mpr fun h =>
          hr ⟨h.2.1, h.2.2.1, Or.inr ⟨h.1, h.2.2.2⟩⟩
        streamOnce := directThenRelay_once hstream
        postOnce := directThenRelay_once hpost }

/-- A streamed request whose final drain times out, over a relay that answers. -/
def drainTimeout : Exchange where
  direct :=
    { connect := none, createStream := none, begin := none, writeHello := none
      drainHello := none, readHello := none, checkHello := none, finish := none
      writeHead := none, writeBody := fun _ => none, writeEnd := none, drain := some .timeout
      readHead := none, decodeHead := none, exit := none, status := none, body := []
      closeBody := none }
  relay :=
    { acquire := none, connect := none, writes := 1, write := fun _ => none, readHead := none
      readBody := none, status := 200, bodyLength := 0, body := [], close := none }
  ownGrant := str "grant"
  path := Relay.modelSharePath
  grant := str "grant"
  payload := []
  maxResponseBytes := 1024

/-- Both transports deliver the request. -/
theorem drainTimeout_delivered_twice : ¬ drainTimeout.AtMostOneDispatch := by
  intro h
  exact h.streamOnce ⟨by decide, by decide⟩

end Exchange

end AI2Apps.Peer
