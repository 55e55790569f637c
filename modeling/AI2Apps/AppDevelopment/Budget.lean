import AI2Apps.Lib.JsonText
import AI2Apps.Lib.Ledgers
import AI2Apps.Lib.Utf8
import Mathlib.Data.List.Pairwise

/-!
# The model budget of a coding task

A coding run and its children share a budget of tokens.  Before a model call the coordinator
reserves what its input and its output may take, and after it the reservation is settled by the
usage that is reported.

* `reserveModel`, `settleModel`, `maintain`, `startChild`: the transactions.
* `Reached`: what any interleaving of them can make of the tables.
* `Within`: the invariant.
* `shared_budget`: the limits, and when a reservation covers the request that is sent.

The floats of a request are written, and `int` reads a text, by parameters.
-/

namespace AI2Apps.AppDevelopment

open Ledgers (total)

/-! ## The tables -/

/-- `ROOT_TOKENS`. -/
def rootTokens : ℤ := 100000

/-- `PARENT_RESERVE`. -/
def parentReserve : ℤ := 10000

/-- `ROOT_KEY`. -/
def rootKey : Str := str "ai2apps.app-developer"

/-- `ROLE_PREFIX`. -/
def roleStem : Str := str "ai2apps.app-developer."

/-- A run of an agent, with its delegated budget and whether the host has bound it to a coding task. -/
structure Run where
  id : Str
  rootRunId : Str
  parentRunId : Option Str
  agentKey : Str
  maxModelTokens : ℤ
  bound : Bool
  deriving DecidableEq

/-- A row of `coding_model_reservations`, with the run of its step. -/
structure Reservation where
  stepId : Str
  runId : Str
  rootRunId : Str
  reservedTokens : ℤ
  chargedTokens : Option ℤ
  estimated : Bool
  deriving DecidableEq

/-- `COALESCE(charged_tokens, reserved_tokens)`. -/
def Reservation.amount (r : Reservation) : ℤ := r.chargedTokens.getD r.reservedTokens

structure Db where
  runs : List Run
  reservations : List Reservation
  deriving DecidableEq

/-- The sum over a task. -/
def Db.used (db : Db) (rootId : Str) : ℤ :=
  total Reservation.amount (fun r => r.rootRunId = rootId) db.reservations

/-- The sum over a run. -/
def Db.runUsed (db : Db) (runId : Str) : ℤ :=
  total Reservation.amount (fun r => r.runId = runId) db.reservations

/-! ## The request -/

mutual

/-- `json.dumps(value, ensure_ascii=False)`, with a blank after each comma and colon. -/
def dumpsSpaced (floats : FloatText) : Json → Str
  | .arr [] => str "[]"
  | .arr (v :: items) => 91 :: dumpsSpaced floats v ++ dumpsSpacedItems floats items
  | .obj [] => str "\x7b\x7d"
  | .obj ((k, v) :: members) =>
    123 :: JsonText.quote k ++ str ": " ++ dumpsSpaced floats v ++ dumpsSpacedMembers floats members
  | v => JsonText.dumps floats v

def dumpsSpacedItems (floats : FloatText) : List Json → Str
  | [] => [93]
  | v :: items => str ", " ++ dumpsSpaced floats v ++ dumpsSpacedItems floats items

def dumpsSpacedMembers (floats : FloatText) : List (Str × Json) → Str
  | [] => [125]
  | (k, v) :: members =>
    str ", " ++ JsonText.quote k ++ str ": " ++ dumpsSpaced floats v ++ dumpsSpacedMembers floats members

end

/-- What the source takes from its language: the text of a float, and `int` of a text. -/
structure Env where
  floats : FloatText
  intOfText : Str → Option ℤ

/-- `math.ceil(len(json.dumps(request, ensure_ascii=False).encode()) / 4) + 128`. -/
def inputBound (env : Env) (request : Json.Object) : Except Str ℤ :=
  match Utf8.encode (dumpsSpaced env.floats (.obj request)) with
  | none => .error (str "surrogates not allowed")
  | some bytes => .ok (((bytes.length + 3) / 4 : ℕ) + 128)

/-- `int(value)`. -/
def pyInt (env : Env) : Json → Except Str ℤ
  | .int i => .ok i
  | .bool b => .ok b.toNat
  | .float (.finite q) => .ok (q.num.tdiv q.den)
  | .float .nan => .error (str "cannot convert float NaN to integer")
  | .float _ => .error (str "cannot convert float infinity to integer")
  | .str text =>
    match env.intOfText text with
    | some i => .ok i
    | none => .error (str "invalid literal for int()")
  | _ => .error (str "int() argument must be a string, a bytes-like object or a real number")

/-- `not value`. -/
def falsy : Json → Bool
  | .null => true
  | .bool b => !b
  | .int i => i = 0
  | .float f => f = .finite 0
  | .str s => s.isEmpty
  | .arr items => items.isEmpty
  | .obj members => members.isEmpty

/-- `int(request.get("max_tokens") or 2048)`. -/
def wantedTokens (env : Env) (request : Json.Object) : Except Str ℤ :=
  match Json.lookup (str "max_tokens") request with
  | none => .ok 2048
  | some value => if falsy value then .ok 2048 else pyInt env value

/-! ## The transactions -/

/-- A run of the coding agent or of one of its roles. -/
def Run.coding (run : Run) : Bool := run.agentKey = rootKey || roleStem.isPrefixOf run.agentKey

def Run.isChild (run : Run) : Bool := run.parentRunId.isSome

/-- `allowance`, of a run with what it and its task have used. -/
def allowance (run : Run) (used runUsed : ℤ) : ℤ :=
  if run.isChild then min (rootTokens - used - parentReserve) (run.maxModelTokens - runUsed)
  else rootTokens - used

/-- `reserve_model`: the tables after it, and the request as it is sent. -/
def reserveModel (env : Env) (db : Db) (run : Run) (stepId : Str) (request : Json.Object) :
    Except Str (Db × Json.Object) :=
  if ¬ run.coding then .ok (db, request)
  else if run.isChild ∧ ¬ run.bound then .error (str "child_scope_denied")
  else
    match inputBound env request with
    | .error e => .error e
    | .ok bound =>
      if db.reservations.any (fun r => r.stepId = stepId) then .ok (db, request)
      else
        let allowance := allowance run (db.used run.rootRunId) (db.runUsed run.id)
        if allowance ≤ bound then
          .error (if run.isChild ∧ run.maxModelTokens - db.runUsed run.id ≤ bound then
            str "child_budget_exhausted" else str "root_budget_exhausted")
        else
          match wantedTokens env request with
          | .error e => .error e
          | .ok wanted =>
            let cap := min (min wanted (allowance - bound)) 2048
            -- The column does not take a negative number.
            if bound + cap < 0 then .error (str "CHECK constraint failed: reserved_tokens>=0")
            else
              .ok ({ db with reservations := db.reservations ++
                  [⟨stepId, run.id, run.rootRunId, bound + cap, none, false⟩] },
                JsonText.setMember (str "max_tokens") (.int (max 1 cap)) request)

/-- `output.get("usage", {}).get("total_tokens")` where it is a number of tokens. -/
def reportedTotal (output : Json) : Option ℤ :=
  match output with
  | .obj output =>
    match Json.lookup (str "usage") output with
    | some (.obj usage) =>
      match Json.lookup (str "total_tokens") usage with
      | some (.int i) => if 0 ≤ i then some i else none
      | some (.bool b) => some b.toNat
      | _ => none
    | _ => none
  | _ => none

/-- The charge of a row by what is reported, or by the reservation. -/
def Reservation.charge (r : Reservation) (reported : Option ℤ) : Reservation :=
  match reported with
  | some n => { r with chargedTokens := some n, estimated := false }
  | none => { r with chargedTokens := some r.reservedTokens, estimated := true }

/-- `settle_model`. -/
def settleModel (db : Db) (stepId : Str) (output : Json) : Db :=
  { db with reservations := db.reservations.map fun r =>
      if r.stepId = stepId ∧ r.chargedTokens = none then r.charge (reportedTotal output) else r }

/-- The settlements of `maintain`: the rows that are not charged and whose step is completed, by its
stored output. -/
def maintain (db : Db) (completed : Str → Option Json) : Db :=
  db.reservations.foldl (fun now r =>
    match r.chargedTokens, completed r.stepId with
    | none, some output => settleModel now r.stepId output
    | _, _ => now) db

/-- The limits of `validate_request` on the tokens of a child. -/
def validTokens (n : ℤ) : Bool := 1 ≤ n && n ≤ 20000

/-- The end of `start`, with the tokens that remained when it looked: other transactions may have come
since. -/
def startChild (db : Db) (root : Run) (childId role : Str) (maxModelTokens remaining : ℤ) :
    Except Str Db :=
  if root.isChild ∨ root.agentKey ≠ rootKey then .error (str "parent_scope_denied")
  else if ¬ validTokens maxModelTokens then .error (str "invalid_budget")
  else if remaining ≤ parentReserve then .error (str "root_budget_exhausted")
  else .ok { db with runs := db.runs ++ [⟨childId, root.rootRunId, some root.id, roleStem ++ role,
    min maxModelTokens (remaining - parentReserve), true⟩] }

/-! ## Runs -/

/-- The transactions, in any order, of any tasks. -/
inductive Tx
  | create (run : Run)
  | start (root : Run) (childId role : Str) (maxModelTokens remaining : ℤ)
  | reserve (run : Run) (stepId : Str) (request : Json.Object)
  | settle (stepId : Str) (output : Json)
  | maintain (completed : Str → Option Json)

/-- The tables after a transaction; one that raises is rolled back. -/
def Db.after (env : Env) (db : Db) : Tx → Db
  | .create run => { db with runs := db.runs ++ [run] }
  | .start root childId role maxModelTokens remaining =>
    match startChild db root childId role maxModelTokens remaining with
    | .ok db' => db'
    | .error _ => db
  | .reserve run stepId request =>
    match reserveModel env db run stepId request with
    | .ok (db', _) => db'
    | .error _ => db
  | .settle stepId output => settleModel db stepId output
  | .maintain completed => maintain db completed

/-- What is reported of a step is not above its reservation. -/
def Reports (db : Db) (stepId : Str) (output : Json) : Prop :=
  ∀ r ∈ db.reservations, r.stepId = stepId → ∀ n, reportedTotal output = some n → n ≤ r.reservedTokens

/-- New runs have new names and no host binding but that of `start`, the runs that call are in the
tables, and usage is reported within the reservations. -/
def Proper (db : Db) : Tx → Prop
  | .create run => (∀ r ∈ db.runs, r.id ≠ run.id) ∧ run.bound = false
  | .start _ childId _ _ _ => ∀ r ∈ db.runs, r.id ≠ childId
  | .reserve run _ _ => run ∈ db.runs
  | .settle stepId output => Reports db stepId output
  | .maintain completed => ∀ stepId output, completed stepId = some output → Reports db stepId output

inductive Reached (env : Env) : Db → Prop
  | empty : Reached env ⟨[], []⟩
  | step {db : Db} {tx : Tx} : Reached env db → Proper db tx → Reached env (db.after env tx)

/-! ## What a reservation does -/

/-- A step that has a reservation. -/
def Db.reserved (db : Db) (stepId : Str) : Prop := ∃ r ∈ db.reservations, r.stepId = stepId

variable {db db' : Db} {stepId : Str} {env : Env} {run : Run} {request sent : Json.Object}

theorem any_stepId :
    db.reservations.any (fun r => r.stepId = stepId) = true ↔ db.reserved stepId := by
  rw [List.any_eq_true]
  exact exists_congr fun r => and_congr_right fun _ => decide_eq_true_iff

/-- What a transaction that allows a request of a coding run does: nothing for a step that has a
reservation, else one more row within the allowance. -/
theorem reserveModel_cases (hcoding : run.coding = true)
    (h : reserveModel env db run stepId request = .ok (db', sent)) :
    (run.isChild = true → run.bound = true) ∧ ∃ bound, inputBound env request = .ok bound ∧
      ((db.reserved stepId ∧ db' = db ∧ sent = request) ∨
        (¬ db.reserved stepId ∧ ∃ wanted cap, wantedTokens env request = .ok wanted ∧
          cap = min (min wanted (allowance run (db.used run.rootRunId) (db.runUsed run.id) - bound)) 2048 ∧
          bound < allowance run (db.used run.rootRunId) (db.runUsed run.id) ∧
          db' = { db with reservations := db.reservations ++
            [⟨stepId, run.id, run.rootRunId, bound + cap, none, false⟩] } ∧
          sent = JsonText.setMember (str "max_tokens") (.int (max 1 cap)) request)) := by
  unfold reserveModel at h
  rw [if_neg (not_not.mpr hcoding)] at h
  by_cases hchild : run.isChild = true ∧ ¬ run.bound = true
  · rw [if_pos hchild] at h
    cases h
  rw [if_neg hchild] at h
  refine ⟨fun hc => by_contra fun hb => hchild ⟨hc, hb⟩, ?_⟩
  split at h
  · cases h
  · rename_i bound hbound
    refine ⟨bound, hbound, ?_⟩
    by_cases hstep : db.reservations.any (fun r => r.stepId = stepId) = true
    · rw [if_pos hstep] at h
      obtain ⟨rfl, rfl⟩ := Prod.mk.inj (Except.ok.inj h)
      exact Or.inl ⟨any_stepId.mp hstep, rfl, rfl⟩
    · rw [if_neg hstep] at h
      dsimp only at h
      by_cases hallowance : allowance run (db.used run.rootRunId) (db.runUsed run.id) ≤ bound
      · rw [if_pos hallowance] at h
        cases h
      rw [if_neg hallowance] at h
      split at h
      · cases h
      · rename_i wanted hwanted
        split_ifs at h with hcheck
        obtain ⟨rfl, rfl⟩ := Prod.mk.inj (Except.ok.inj h)
        exact Or.inr ⟨fun hr => hstep (any_stepId.mpr hr), wanted, _, hwanted, rfl,
          not_le.mp hallowance, rfl, rfl⟩

/-! ## The invariant -/

/-- The budget is kept. -/
structure Within (db : Db) : Prop where
  ids : db.runs.Pairwise fun a b => a.id ≠ b.id
  owned : ∀ r ∈ db.reservations, ∃ run ∈ db.runs, run.id = r.runId
  children : ∀ run ∈ db.runs, run.bound = true → run.isChild = true
  used : ∀ rootId, db.used rootId ≤ rootTokens
  runUsed : ∀ run ∈ db.runs, run.bound = true → db.runUsed run.id ≤ run.maxModelTokens

theorem Within.empty : Within ⟨[], []⟩ :=
  ⟨List.Pairwise.nil, by simp, by simp, fun _ => (by decide : (0 : ℤ) ≤ rootTokens), by simp⟩

/-- One more run. -/
theorem Within.addRun (h : Within db) (hfresh : ∀ r ∈ db.runs, r.id ≠ run.id)
    (hbound : run.bound = true → run.isChild = true ∧ 0 ≤ run.maxModelTokens) :
    Within { db with runs := db.runs ++ [run] } where
  ids := by
    refine List.pairwise_append.mpr ⟨h.ids, List.pairwise_singleton _ _, fun a ha b hb => ?_⟩
    rw [List.mem_singleton.mp hb]
    exact hfresh a ha
  owned r hr := by
    obtain ⟨q, hq, hid⟩ := h.owned r hr
    exact ⟨q, List.mem_append_left _ hq, hid⟩
  children q hq hqbound := by
    rcases List.mem_append.mp hq with hq | hq
    · exact h.children q hq hqbound
    · obtain rfl := List.mem_singleton.mp hq
      exact (hbound hqbound).1
  used := h.used
  runUsed q hq hqbound := by
    rcases List.mem_append.mp hq with hq | hq
    · exact h.runUsed q hq hqbound
    · obtain rfl := List.mem_singleton.mp hq
      have hnone : db.runUsed q.id = 0 := Ledgers.total_eq_zero fun r hr => by
        obtain ⟨owner, howner, hid⟩ := h.owned r hr
        exact decide_eq_false fun he => hfresh owner howner (hid.trans he)
      show db.runUsed q.id ≤ q.maxModelTokens
      rw [hnone]
      exact (hbound hqbound).2

/-- Rows that are charged within their reservations. -/
theorem Within.charge {f : Reservation → Reservation} (h : Within db)
    (hkeys : ∀ r ∈ db.reservations, (f r).runId = r.runId ∧ (f r).rootRunId = r.rootRunId)
    (hamount : ∀ r ∈ db.reservations, (f r).amount ≤ r.amount) :
    Within { db with reservations := db.reservations.map f } where
  ids := h.ids
  owned r hr := by
    obtain ⟨q, hq, rfl⟩ := List.mem_map.mp hr
    rw [(hkeys q hq).1]
    exact h.owned q hq
  children := h.children
  used rootId := (Ledgers.total_map_le (fun r hr => by rw [(hkeys r hr).2]) hamount).trans (h.used rootId)
  runUsed run hrun hbound :=
    (Ledgers.total_map_le (fun r hr => by rw [(hkeys r hr).1]) hamount).trans (h.runUsed run hrun hbound)

theorem charge_keys (r : Reservation) (reported : Option ℤ) :
    (r.charge reported).stepId = r.stepId ∧ (r.charge reported).runId = r.runId ∧
      (r.charge reported).rootRunId = r.rootRunId ∧
      (r.charge reported).reservedTokens = r.reservedTokens := by
  cases reported <;> exact ⟨rfl, rfl, rfl, rfl⟩

theorem Within.settleModel {output : Json} (h : Within db) (hreports : Reports db stepId output) :
    Within (settleModel db stepId output) := by
  refine h.charge (fun r _ => ?_) fun r hr => ?_
  · split_ifs
    · exact ⟨(charge_keys r _).2.1, (charge_keys r _).2.2.1⟩
    · exact ⟨rfl, rfl⟩
  · split_ifs with hcharged
    · obtain ⟨hstep, hnone⟩ := hcharged
      have hreserved : r.amount = r.reservedTokens := by rw [Reservation.amount, hnone, Option.getD_none]
      rw [hreserved]
      rcases hreported : reportedTotal output with _ | n
      · exact le_rfl
      · exact hreports r hr hstep n hreported
    · exact le_rfl

/-- A settlement leaves the reservations. -/
theorem reports_settleModel {stepId' : Str} {output output' : Json} (h : Reports db stepId output) :
    Reports (settleModel db stepId' output') stepId output := by
  intro r hr hstep n hn
  obtain ⟨q, hq, rfl⟩ := List.mem_map.mp hr
  split_ifs at hstep ⊢ with hcharged
  · rw [(charge_keys q _).2.2.2]
    exact h q hq ((charge_keys q _).1.symm.trans hstep) n hn
  · exact h q hq hstep n hn

theorem Within.maintain {completed : Str → Option Json} (h : Within db)
    (hreports : ∀ stepId output, completed stepId = some output → Reports db stepId output) :
    Within (maintain db completed) := by
  unfold AppDevelopment.maintain
  generalize db.reservations = rows
  induction rows generalizing db with
  | nil => exact h
  | cons r rows ih =>
    rw [List.foldl_cons]
    split
    · rename_i output _ hcompleted
      exact ih (h.settleModel (hreports _ _ hcompleted)) fun stepId output' ho =>
        reports_settleModel (hreports stepId output' ho)
    · exact ih h hreports

/-- A run is known by its name. -/
theorem Within.eq_of_id (h : Within db) {a b : Run} (ha : a ∈ db.runs) (hb : b ∈ db.runs) (hid : a.id = b.id) :
    a = b := by
  have : Std.Symm fun a b : Run => a.id ≠ b.id := ⟨fun _ _ hne => hne.symm⟩
  exact by_contra fun hne => h.ids.forall ha hb hne hid

/-- A row within the allowance of its run. -/
theorem Within.addReservation {tokens : ℤ} (h : Within db) (hrun : run ∈ db.runs)
    (htokens : tokens ≤ allowance run (db.used run.rootRunId) (db.runUsed run.id)) :
    Within { db with reservations := db.reservations ++
      [⟨stepId, run.id, run.rootRunId, tokens, none, false⟩] } where
  ids := h.ids
  owned r hr := by
    rcases List.mem_append.mp hr with hr | hr
    · exact h.owned r hr
    · rw [List.mem_singleton.mp hr]
      exact ⟨run, hrun, rfl⟩
  children := h.children
  used rootId := by
    rw [Db.used, Ledgers.total_concat]
    have hold := h.used rootId
    dsimp only
    by_cases hroot : run.rootRunId = rootId
    · subst hroot
      rw [if_pos (decide_eq_true rfl)]
      unfold allowance at htokens
      unfold Db.used at htokens hold
      show _ + tokens ≤ _
      have hreserve : 0 ≤ parentReserve := by decide
      split_ifs at htokens <;> omega
    · rw [if_neg (by simpa using hroot), add_zero]
      exact hold
  runUsed q hq hqbound := by
    rw [Db.runUsed, Ledgers.total_concat]
    have hold := h.runUsed q hq hqbound
    dsimp only
    by_cases hid : run.id = q.id
    · obtain rfl := h.eq_of_id hrun hq hid
      rw [if_pos (decide_eq_true rfl)]
      unfold allowance at htokens
      rw [if_pos (h.children run hrun hqbound)] at htokens
      unfold Db.runUsed at htokens
      show _ + tokens ≤ _
      omega
    · rw [if_neg (by simpa using hid), add_zero]
      exact hold

theorem Within.startChild {root : Run} {childId role : Str} {maxModelTokens remaining : ℤ} (h : Within db)
    (hfresh : ∀ r ∈ db.runs, r.id ≠ childId)
    (hstart : startChild db root childId role maxModelTokens remaining = .ok db') : Within db' := by
  unfold AppDevelopment.startChild at hstart
  split_ifs at hstart with hparent hvalid hremaining
  obtain rfl := Except.ok.inj hstart
  refine h.addRun hfresh fun _ => ⟨rfl, ?_⟩
  have htokens : 1 ≤ maxModelTokens := by
    rw [validTokens, Bool.and_eq_true, decide_eq_true_iff] at hvalid
    exact hvalid.1
  dsimp only
  omega

theorem Within.reserveModel (h : Within db) (hrun : run ∈ db.runs)
    (hreserve : reserveModel env db run stepId request = .ok (db', sent)) : Within db' := by
  by_cases hcoding : run.coding = true
  · obtain ⟨-, bound, -, ⟨-, rfl, -⟩ | ⟨-, wanted, cap, -, hcap, hlt, rfl, -⟩⟩ :=
      reserveModel_cases hcoding hreserve
    · exact h
    · exact h.addReservation hrun (by omega)
  · unfold AppDevelopment.reserveModel at hreserve
    rw [if_pos hcoding] at hreserve
    obtain ⟨rfl, -⟩ := Prod.mk.inj (Except.ok.inj hreserve)
    exact h

/-- A transaction keeps the budget. -/
theorem Within.after {tx : Tx} (h : Within db) (hproper : Proper db tx) :
    Within (db.after env tx) := by
  cases tx with
  | create run => exact h.addRun hproper.1 fun hbound => absurd (hbound.symm.trans hproper.2) (by decide)
  | start root childId role maxModelTokens remaining =>
    show Within (match AppDevelopment.startChild db root childId role maxModelTokens remaining with
      | .ok db' => db'
      | .error _ => db)
    split
    · rename_i hstart
      exact h.startChild hproper hstart
    · exact h
  | reserve run stepId request =>
    show Within (match AppDevelopment.reserveModel env db run stepId request with
      | .ok (db', _) => db'
      | .error _ => db)
    split
    · rename_i hreserve
      exact h.reserveModel hproper hreserve
    · exact h
  | settle stepId output => exact h.settleModel hproper
  | maintain completed => exact h.maintain hproper

theorem Reached.within (h : Reached env db) : Within db := by
  induction h with
  | empty => exact Within.empty
  | step _ hproper ih => exact ih.after hproper

/-! ## The request that is sent -/

/-- The step has a reservation of the input bound of the request and of the `max_tokens` in it as it is
sent. -/
def Covered (env : Env) (db : Db) (stepId : Str) (request sent : Json.Object) : Prop :=
  ∃ r ∈ db.reservations, r.stepId = stepId ∧ ∃ bound cap, inputBound env request = .ok bound ∧
    Json.lookup (str "max_tokens") sent = some (.int cap) ∧ bound + cap ≤ r.reservedTokens

/-- What the request must be for that: it asks for a positive number of tokens, or for nothing; where
the step has a reservation already, this must do for the request. -/
def Askable (env : Env) (db : Db) (stepId : Str) (request : Json.Object) : Prop :=
  (¬ db.reserved stepId ∧ ∃ wanted, wantedTokens env request = .ok wanted ∧ 1 ≤ wanted) ∨
    (db.reserved stepId ∧ Covered env db stepId request request)

/-- **A request that is allowed is covered if and only if it asks for a positive number of tokens.** -/
theorem covered_iff (hcoding : run.coding = true)
    (h : reserveModel env db run stepId request = .ok (db', sent)) :
    Covered env db' stepId request sent ↔ Askable env db stepId request := by
  obtain ⟨-, bound, hbound, ⟨hreserved, rfl, rfl⟩ | ⟨hreserved, wanted, cap, hwanted, hcap, hlt, rfl, rfl⟩⟩ :=
    reserveModel_cases hcoding h
  · exact ⟨fun hc => Or.inr ⟨hreserved, hc⟩, fun hc => hc.elim (fun hf => absurd hreserved hf.1) And.right⟩
  · constructor
    · rintro ⟨r, hr, hstep, bound', cap', hbound', hcap', hle⟩
      rw [hbound] at hbound'
      obtain rfl := Except.ok.inj hbound'
      rw [JsonText.lookup_setMember_self] at hcap'
      obtain rfl := Json.int.inj (Option.some.inj hcap')
      refine Or.inl ⟨hreserved, wanted, hwanted, ?_⟩
      -- The row of the step is the new one.
      rcases List.mem_append.mp hr with hr | hr
      · exact absurd ⟨r, hr, hstep⟩ hreserved
      · rw [List.mem_singleton.mp hr] at hle
        dsimp only at hle
        omega
    · rintro (⟨-, wanted', hwanted', hpos⟩ | ⟨hr, -⟩)
      · rw [hwanted] at hwanted'
        obtain rfl := Except.ok.inj hwanted'
        refine ⟨_, List.mem_append_right _ (List.mem_singleton.mpr rfl), rfl, bound, _, hbound,
          JsonText.lookup_setMember_self _ _ _, ?_⟩
        dsimp only
        omega
      · exact absurd hr hreserved

/-- The sum of a task after a child has reserved. -/
theorem used_le_of_child (hcoding : run.coding = true) (hchild : run.isChild = true)
    (hnew : ¬ db.reserved stepId) (h : reserveModel env db run stepId request = .ok (db', sent)) :
    db'.used run.rootRunId ≤ rootTokens - parentReserve := by
  obtain ⟨-, bound, -, ⟨hreserved, -, -⟩ | ⟨-, wanted, cap, -, hcap, hlt, rfl, -⟩⟩ :=
    reserveModel_cases hcoding h
  · exact absurd hreserved hnew
  · rw [Db.used, Ledgers.total_concat]
    dsimp only
    rw [if_pos (decide_eq_true rfl)]
    unfold allowance Db.used at hcap hlt
    rw [if_pos hchild] at hcap hlt
    show _ + (bound + cap) ≤ _
    omega

/-! ## The law of the budget -/

/-- What holds of the tables and of the next reservation. -/
structure Law (env : Env) (db : Db) : Prop where
  used : ∀ rootId, db.used rootId ≤ rootTokens
  runUsed : ∀ run ∈ db.runs, run.bound = true → db.runUsed run.id ≤ run.maxModelTokens
  child : ∀ run ∈ db.runs, ∀ stepId request db' sent, run.coding = true → run.isChild = true →
    ¬ db.reserved stepId → reserveModel env db run stepId request = .ok (db', sent) →
    db'.used run.rootRunId ≤ rootTokens - parentReserve
  covered : ∀ run ∈ db.runs, ∀ stepId request db' sent, run.coding = true →
    reserveModel env db run stepId request = .ok (db', sent) →
    (Covered env db' stepId request sent ↔ Askable env db stepId request)

/-- **The limits are kept in every state that is reached, and the requests that are covered are those
that ask for a positive number of tokens.** -/
theorem shared_budget {env : Env} {db : Db} (h : Reached env db) : Law env db where
  used := h.within.used
  runUsed := h.within.runUsed
  child _ _ _ _ _ _ hcoding hchild hnew hreserve := used_le_of_child hcoding hchild hnew hreserve
  covered _ _ _ _ _ _ hcoding hreserve := covered_iff hcoding hreserve

/-- A coding run by itself. -/
def soloRun : Run := ⟨str "run", str "run", none, rootKey, 0, false⟩

def plainEnv : Env := ⟨⟨fun _ => str "0.0", fun _ => .nan⟩, fun _ => none⟩

theorem reached_soloRun : Reached plainEnv ⟨[soloRun], []⟩ :=
  @Reached.step plainEnv _ (.create soloRun) Reached.empty ⟨by simp, rfl⟩

/-- What the run starts. -/
def startedRun : Run :=
  ⟨str "child", str "run", some (str "run"), roleStem ++ str "tester", 20000, true⟩

/-- A request that asks for nothing. -/
def plainRequest : Json.Object := [(str "messages", .arr [])]

/-- The law after the run and a child of it have reserved, and the child's step is settled. -/
theorem shared_budget_startedRun :
    ∃ db, db = [.start soloRun (str "child") (str "tester") 20000 100000,
        .reserve soloRun (str "step") plainRequest, .reserve startedRun (str "childStep") plainRequest,
        .settle (str "childStep") (.obj [(str "usage", .obj [(str "total_tokens", .int 100)])])].foldl
          (Db.after plainEnv) ⟨[soloRun], []⟩ ∧
      startedRun ∈ db.runs ∧ db.runUsed (str "child") = 100 ∧ Law plainEnv db := by
  refine ⟨_, rfl, by decide, by decide, shared_budget ?_⟩
  have hstarted := @Reached.step plainEnv _ (.start soloRun (str "child") (str "tester") 20000 100000)
    reached_soloRun fun r hr => by
      obtain rfl := List.mem_singleton.mp hr
      decide
  have hroot := @Reached.step plainEnv _ (.reserve soloRun (str "step") plainRequest) hstarted (by
    show soloRun ∈ Db.runs _
    decide)
  have hchild := @Reached.step plainEnv _ (.reserve startedRun (str "childStep") plainRequest) hroot (by
    show startedRun ∈ Db.runs _
    decide)
  refine @Reached.step plainEnv _ (.settle (str "childStep") _) hchild ?_
  intro r hr hstep n hn
  obtain rfl : 100 = n := Option.some.inj hn
  revert r
  decide

/-- A request for minus one token. -/
def negativeRequest : Json.Object := [(str "messages", .arr []), (str "max_tokens", .int (-1))]

/-- It is sent with `max_tokens` one, and reserved with minus one. -/
theorem reserve_negativeRequest :
    reserveModel plainEnv ⟨[soloRun], []⟩ soloRun (str "step") negativeRequest =
      .ok (⟨[soloRun], [⟨str "step", str "run", str "run", 136, none, false⟩]⟩,
        [(str "messages", .arr []), (str "max_tokens", .int 1)]) := by
  have hbound : inputBound plainEnv negativeRequest = .ok 137 := by decide
  have hwanted : wantedTokens plainEnv negativeRequest = .ok (-1) := by decide
  unfold reserveModel
  rw [if_neg (by decide), if_neg (by decide), hbound, hwanted]
  rfl

/-- Not every request that is allowed is covered. -/
theorem budget_not_covered : ¬ ∀ (env : Env) (db : Db), Reached env db → ∀ run ∈ db.runs,
    ∀ stepId request db' sent, run.coding = true → ¬ db.reserved stepId →
    reserveModel env db run stepId request = .ok (db', sent) → Covered env db' stepId request sent := by
  intro h
  have hnew : ¬ Db.reserved ⟨[soloRun], []⟩ (str "step") := fun ⟨r, hr, _⟩ => absurd hr List.not_mem_nil
  have hcovered := h plainEnv _ reached_soloRun soloRun (List.mem_singleton.mpr rfl) _ _ _ _ (by decide)
    hnew reserve_negativeRequest
  rcases (covered_iff (by decide) reserve_negativeRequest).mp hcovered with ⟨-, wanted, hwanted, hpos⟩ | ⟨hr, -⟩
  · have hminus : wantedTokens plainEnv negativeRequest = .ok (-1) := by decide
    rw [hminus] at hwanted
    obtain rfl := Except.ok.inj hwanted
    exact absurd hpos (by decide)
  · exact hnew hr

end AI2Apps.AppDevelopment
