import AI2Apps.ModelSharing.Protocol

/-!
# The order of accepted events

The three decoders move through the same phases.  `View` is what they have in
common, `Accepts` what one accepted event does to it, and `Ordered` what the
events accepted so far look like in each phase.

* `ordered_of_run`: one event keeps the order, hence every run does.
* `run_of_feedAll`: from one parsed event to a stream.
-/

namespace AI2Apps.ModelSharing

/-! ## A decoder seen from outside -/

/-- The phase, the next sequence number, the committed digest, and the released
manifest with its own digest. -/
structure View where
  phase : Phase
  sequence : ℕ
  digest : Option Str
  manifest : Option (Json.Object × Str)

/-- What the events of a stream are bound to. -/
structure StreamBinding where
  version : ℤ
  outputEvent : Str
  contractId : Str
  requestDigest : Str

/-- The phase after an event. -/
def Phase.after (event : Str) (p : Phase) : Phase :=
  if event = str "job.accepted" then .output
  else if event = str "result.committed" then .committed
  else if event = str "result.payload" then .payload
  else if event = str "job.completed" then .done
  else p

/-- The first event binds the protocol version and the request. -/
def BindsRequest (b : StreamBinding) (e : ModelShareEvent) : Prop :=
  Json.memberEq e.data (str "protocolVersion") (.int b.version) = true ∧
    Json.memberEq e.data (str "requestDigest") (.str b.requestDigest) = true

/-- The event carries this sequence number and the Contract. -/
def Numbered (b : StreamBinding) (n : ℕ) (e : ModelShareEvent) : Prop :=
  Json.memberEq e.data (str "contractId") (.str b.contractId) = true ∧
    Json.memberEq e.data (str "sequence") (.int n) = true

/-- What an accepted event does. -/
structure Accepts (b : StreamBinding) (v : View) (e : ModelShareEvent) (v' : View) : Prop where
  allowed : e.event ∈ v.phase.allowed b.outputEvent
  numbered : Numbered b v.sequence e
  next : v'.sequence = v.sequence + 1
  phase : v'.phase = v.phase.after e.event
  binds : e.event = str "job.accepted" → BindsRequest b e
  commits : e.event = str "result.committed" →
    ∃ d, v'.digest = some d ∧ field e.data "resultDigest" = .str d
  keepsDigest : e.event ≠ str "result.committed" → v'.digest = v.digest
  releases : e.event = str "result.payload" →
    ∃ m, v'.manifest = some m ∧ field e.data "resultManifest" = .obj m.1 ∧ v.digest = some m.2
  keepsManifest : e.event ≠ str "result.payload" → v'.manifest = v.manifest

/-- The events accepted from one view to another. -/
inductive Run (b : StreamBinding) (v : View) : List ModelShareEvent → View → Prop
  | nil : Run b v [] v
  | snoc {events v' e v''} : Run b v events v' → Accepts b v' e v'' → Run b v (events ++ [e]) v''

theorem Run.append {b : StreamBinding} {v v' v'' : View} {events events' : List ModelShareEvent}
    (h : Run b v events v') (h' : Run b v' events' v'') : Run b v (events ++ events') v'' := by
  induction h' with
  | nil => rwa [List.append_nil]
  | snoc _ hstep ih =>
    rw [← List.append_assoc]
    exact ih.snoc hstep

/-! ## The order -/

/-- The first event and the output events. -/
def Opening (b : StreamBinding) (a : ModelShareEvent) (outputs : List ModelShareEvent) : Prop :=
  a.event = str "job.accepted" ∧ BindsRequest b a ∧ ∀ e ∈ outputs, e.event = b.outputEvent

/-- The event that commits to a digest. -/
def Commits (e : ModelShareEvent) (digest : Str) : Prop :=
  e.event = str "result.committed" ∧ field e.data "resultDigest" = .str digest

/-- The event that releases a manifest. -/
def Releases (e : ModelShareEvent) (manifest : Json.Object) : Prop :=
  e.event = str "result.payload" ∧ field e.data "resultManifest" = .obj manifest

/-- The events accepted so far, by the phase they led to. -/
def Ordered (b : StreamBinding) (v : View) (events : List ModelShareEvent) : Prop :=
  match v.phase with
  | .accepted => events = []
  | .output => ∃ a outputs, events = a :: outputs ∧ Opening b a outputs
  | .committed => ∃ a outputs c digest, events = a :: outputs ++ [c] ∧ Opening b a outputs ∧
      v.digest = some digest ∧ Commits c digest
  | .payload => ∃ a outputs c p m, events = a :: outputs ++ [c, p] ∧ Opening b a outputs ∧
      v.manifest = some m ∧ Commits c m.2 ∧ Releases p m.1
  | .done => ∃ a outputs c p j m, events = a :: outputs ++ [c, p, j] ∧ Opening b a outputs ∧
      v.manifest = some m ∧ Commits c m.2 ∧ Releases p m.1 ∧ j.event = str "job.completed"

/-- The output event is none of the events that move the phase. -/
structure StreamBinding.Distinct (b : StreamBinding) : Prop where
  accepted : b.outputEvent ≠ str "job.accepted"
  committed : b.outputEvent ≠ str "result.committed"
  payload : b.outputEvent ≠ str "result.payload"
  completed : b.outputEvent ≠ str "job.completed"

variable {b : StreamBinding} {v v' : View} {e : ModelShareEvent} {events : List ModelShareEvent}

theorem after_output (h : b.Distinct) (p : Phase) : p.after b.outputEvent = p := by
  rw [Phase.after, if_neg h.accepted, if_neg h.committed, if_neg h.payload, if_neg h.completed]

/-- One accepted event keeps the order. -/
theorem Ordered.step (hb : b.Distinct) (h : Ordered b v events) (hstep : Accepts b v e v') :
    Ordered b v' (events ++ [e]) := by
  have hallowed := hstep.allowed
  have hphase := hstep.phase
  unfold Ordered at h
  cases hv : v.phase with
  | accepted =>
    rw [hv] at h hallowed hphase
    have he : e.event = str "job.accepted" := by simpa [Phase.allowed] using hallowed
    subst h
    rw [he] at hphase
    have hv' : v'.phase = .output := hphase
    unfold Ordered
    rw [hv']
    exact ⟨e, [], rfl, he, hstep.binds he, by simp⟩
  | output =>
    rw [hv] at h hallowed hphase
    obtain ⟨a, outputs, rfl, hopen⟩ := h
    rw [Phase.allowed, List.mem_cons, List.mem_singleton] at hallowed
    unfold Ordered
    rcases hallowed with he | he
    · rw [he, after_output hb] at hphase
      rw [hphase]
      refine ⟨a, outputs ++ [e], by simp, hopen.1, hopen.2.1, fun x hx => ?_⟩
      rcases List.mem_append.mp hx with hx | hx
      · exact hopen.2.2 x hx
      · rw [List.mem_singleton.mp hx, he]
    · rw [he] at hphase
      have hv' : v'.phase = .committed := hphase
      rw [hv']
      obtain ⟨d, hd, hfield⟩ := hstep.commits he
      exact ⟨a, outputs, e, d, rfl, hopen, hd, he, hfield⟩
  | committed =>
    rw [hv] at h hallowed hphase
    obtain ⟨a, outputs, c, digest, rfl, hopen, hdigest, hcommits⟩ := h
    have he : e.event = str "result.payload" := by simpa [Phase.allowed] using hallowed
    rw [he] at hphase
    have hv' : v'.phase = .payload := hphase
    obtain ⟨m, hm, hfield, hmd⟩ := hstep.releases he
    unfold Ordered
    rw [hv']
    refine ⟨a, outputs, c, e, m, by simp, hopen, hm, ?_, he, hfield⟩
    rw [hdigest] at hmd
    rw [← Option.some.inj hmd]
    exact hcommits
  | payload =>
    rw [hv] at h hallowed hphase
    obtain ⟨a, outputs, c, p, m, rfl, hopen, hm, hcommits, hreleases⟩ := h
    have he : e.event = str "job.completed" := by simpa [Phase.allowed] using hallowed
    rw [he] at hphase
    have hv' : v'.phase = .done := hphase
    have hkeeps : v'.manifest = v.manifest := hstep.keepsManifest (by rw [he]; decide)
    unfold Ordered
    rw [hv']
    exact ⟨a, outputs, c, p, e, m, by simp, hopen, hkeeps.trans hm, hcommits, hreleases, he⟩
  | done =>
    rw [hv] at hallowed
    exact absurd hallowed (by simp [Phase.allowed])

/-! ### The five kinds of event -/

section Kinds

variable {data : Json.Object}

/-- The first event. -/
theorem accepts_accepted (hallowed : str "job.accepted" ∈ v.phase.allowed b.outputEvent)
    (hnumbered : Numbered b v.sequence ⟨str "job.accepted", data⟩)
    (hbinds : BindsRequest b ⟨str "job.accepted", data⟩) :
    Accepts b v ⟨str "job.accepted", data⟩
      { v with phase := .output, sequence := v.sequence + 1 } where
  allowed := hallowed
  numbered := hnumbered
  next := rfl
  phase := rfl
  binds := fun _ => hbinds
  commits := fun h => absurd h (show str "job.accepted" ≠ str "result.committed" by decide)
  keepsDigest := fun _ => rfl
  releases := fun h => absurd h (show str "job.accepted" ≠ str "result.payload" by decide)
  keepsManifest := fun _ => rfl

/-- A piece of output. -/
theorem accepts_output (hb : b.Distinct) (hallowed : b.outputEvent ∈ v.phase.allowed b.outputEvent)
    (hnumbered : Numbered b v.sequence ⟨b.outputEvent, data⟩) :
    Accepts b v ⟨b.outputEvent, data⟩ { v with sequence := v.sequence + 1 } where
  allowed := hallowed
  numbered := hnumbered
  next := rfl
  phase := (after_output hb _).symm
  binds := fun h => absurd h hb.accepted
  commits := fun h => absurd h hb.committed
  keepsDigest := fun _ => rfl
  releases := fun h => absurd h hb.payload
  keepsManifest := fun _ => rfl

/-- The commitment. -/
theorem accepts_committed {digest : Str}
    (hallowed : str "result.committed" ∈ v.phase.allowed b.outputEvent)
    (hnumbered : Numbered b v.sequence ⟨str "result.committed", data⟩)
    (hdigest : field data "resultDigest" = .str digest) :
    Accepts b v ⟨str "result.committed", data⟩
      { v with phase := .committed, sequence := v.sequence + 1, digest := some digest } where
  allowed := hallowed
  numbered := hnumbered
  next := rfl
  phase := rfl
  binds := fun h => absurd h (show str "result.committed" ≠ str "job.accepted" by decide)
  commits := fun _ => ⟨digest, rfl, hdigest⟩
  keepsDigest := fun h => absurd rfl h
  releases := fun h => absurd h (show str "result.committed" ≠ str "result.payload" by decide)
  keepsManifest := fun _ => rfl

/-- The release of the manifest. -/
theorem accepts_payload {m : Json.Object × Str}
    (hallowed : str "result.payload" ∈ v.phase.allowed b.outputEvent)
    (hnumbered : Numbered b v.sequence ⟨str "result.payload", data⟩)
    (hmanifest : field data "resultManifest" = .obj m.1) (hdigest : v.digest = some m.2) :
    Accepts b v ⟨str "result.payload", data⟩
      { v with phase := .payload, sequence := v.sequence + 1, manifest := some m } where
  allowed := hallowed
  numbered := hnumbered
  next := rfl
  phase := rfl
  binds := fun h => absurd h (show str "result.payload" ≠ str "job.accepted" by decide)
  commits := fun h => absurd h (show str "result.payload" ≠ str "result.committed" by decide)
  keepsDigest := fun _ => rfl
  releases := fun _ => ⟨m, rfl, hmanifest, hdigest⟩
  keepsManifest := fun h => absurd rfl h

/-- The completion. -/
theorem accepts_completed (hallowed : str "job.completed" ∈ v.phase.allowed b.outputEvent)
    (hnumbered : Numbered b v.sequence ⟨str "job.completed", data⟩) :
    Accepts b v ⟨str "job.completed", data⟩
      { v with phase := .done, sequence := v.sequence + 1 } where
  allowed := hallowed
  numbered := hnumbered
  next := rfl
  phase := rfl
  binds := fun h => absurd h (show str "job.completed" ≠ str "job.accepted" by decide)
  commits := fun h => absurd h (show str "job.completed" ≠ str "result.committed" by decide)
  keepsDigest := fun _ => rfl
  releases := fun h => absurd h (show str "job.completed" ≠ str "result.payload" by decide)
  keepsManifest := fun _ => rfl

end Kinds

/-- Nothing has been accepted. -/
def View.start : View := ⟨.accepted, 0, none, none⟩

/-- **Every run keeps the order**, and numbers its events from zero. -/
theorem ordered_of_run (hb : b.Distinct) (h : Run b .start events v) :
    Ordered b v events ∧ v.sequence = events.length ∧
      ∀ i e, events[i]? = some e → Numbered b i e := by
  induction h with
  | nil => exact ⟨rfl, rfl, by simp⟩
  | @snoc events v' e v'' _ hstep ih =>
    obtain ⟨hordered, hlength, hnumbered⟩ := ih
    refine ⟨hordered.step hb hstep, ?_, fun i x hx => ?_⟩
    · rw [hstep.next, hlength, List.length_append, List.length_singleton]
    · rcases Nat.lt_or_ge i events.length with hi | hi
      · rw [List.getElem?_append_left hi] at hx
        exact hnumbered i x hx
      · rw [List.getElem?_append_right hi] at hx
        obtain ⟨hi', rfl⟩ : i - events.length = 0 ∧ e = x := by
          cases hk : i - events.length with
          | zero => rw [hk] at hx; exact ⟨rfl, by simpa using hx⟩
          | succ k => rw [hk] at hx; simp at hx
        obtain rfl : i = events.length := by omega
        rw [← hlength]
        exact hstep.numbered

/-! ## Feeding is a run -/

section Feed

variable {σ : Type} {parse : σ → List ℕ → Except String (σ × ModelShareEvent)} {view : σ → View}

/-- Every parsed event is accepted, and keeps the invariant. -/
def ParseAccepts (b : StreamBinding) (view : σ → View) (invariant : σ → Prop)
    (parse : σ → List ℕ → Except String (σ × ModelShareEvent)) : Prop :=
  ∀ s raw s' e, parse s raw = .ok (s', e) → Accepts b (view s) e (view s') ∧ (invariant s → invariant s')

theorem Run.single (h : Accepts b v e v') : Run b v [e] v' := Run.nil.snoc h

variable {invariant : σ → Prop}

theorem run_of_parseAll (hparse : ParseAccepts b view invariant parse) {s s' : σ} {raws : List (List ℕ)}
    (h : parseAll parse s raws = .ok (s', events)) :
    Run b (view s) events (view s') ∧ (invariant s → invariant s') := by
  induction raws generalizing s events with
  | nil =>
    cases h
    exact ⟨.nil, id⟩
  | cons raw raws ih =>
    rw [parseAll] at h
    split_ifs at h with hempty
    · exact ih h
    · obtain ⟨⟨s₁, e⟩, h₁, h⟩ := Peer.bind_ok h
      obtain ⟨⟨s₂, rest⟩, h₂, h⟩ := Peer.bind_ok h
      cases h
      obtain ⟨haccepts, hkeeps⟩ := hparse s raw s₁ e h₁
      obtain ⟨hrun, hrest⟩ := ih h₂
      exact ⟨(Run.single haccepts).append hrun, hrest ∘ hkeeps⟩

/-- **A stream is a run**, and keeps the invariant. -/
theorem run_of_feedAll (hparse : ParseAccepts b view invariant parse) {d d' : Decoder σ}
    {chunks : List (List ℕ)} (h : feedAll parse d chunks = .ok (d', events)) :
    Run b (view d.state) events (view d'.state) ∧ (invariant d.state → invariant d'.state) := by
  induction chunks generalizing d events with
  | nil =>
    cases h
    exact ⟨.nil, id⟩
  | cons chunk chunks ih =>
    rw [feedAll] at h
    obtain ⟨⟨d₁, events₁⟩, h₁, h⟩ := Peer.bind_ok h
    obtain ⟨⟨d₂, rest⟩, h₂, h⟩ := Peer.bind_ok h
    cases h
    unfold feed at h₁
    obtain ⟨⟨s₁, evs⟩, h₃, h₁⟩ := Peer.bind_ok h₁
    cases h₁
    obtain ⟨hrun, hkeeps⟩ := run_of_parseAll hparse h₃
    obtain ⟨hmore, hrest⟩ := ih h₂
    exact ⟨hrun.append hmore, hrest ∘ hkeeps⟩

end Feed

/-! ## What the checks of the decoders establish -/

theorem ensure_bind_ok {α : Type} {check : Bool} {message : String} {f : Unit → Except String α}
    {r : α} (h : (ensure check message >>= f) = .ok r) : check = true ∧ f () = .ok r := by
  unfold ensure at h
  cases check with
  | true => exact ⟨rfl, h⟩
  | false => exact absurd h (by simp [bind, Except.bind])

theorem orError_ok {α : Type} {value : Option α} {message : String} {a : α}
    (h : orError value message = .ok a) : value = some a := by
  unfold orError at h
  split at h
  · cases h
    rfl
  · cases h

/-- The data of an accepted event is an object of the Contract, next in sequence. -/
theorem eventData_ok {floats : FloatText} {contractId : Str} {n : ℕ} {text : Str}
    {data : Json.Object} (h : eventData floats contractId n text = .ok data) :
    Json.memberEq data (str "contractId") (.str contractId) = true ∧
      Json.memberEq data (str "sequence") (.int n) = true := by
  unfold eventData at h
  split at h
  · cases h
  · split at h
    · cases h
    · split_ifs at h with hcheck
      cases h
      simpa using hcheck

/-- The committed digest is the one in the event. -/
theorem digestOf_ok {data : Json.Object} {digest : Str} (h : digestOf data = .ok digest) :
    field data "resultDigest" = .str digest := by
  have h' := orError_ok h
  rw [Option.filter_eq_some_iff] at h'
  cases hv : field data "resultDigest" with
  | str s => rw [hv] at h'; cases h'.1; rfl
  | _ => rw [hv] at h'; exact absurd h'.1 (by simp [Json.str?])

end AI2Apps.ModelSharing
