import AI2Apps.Sharing.Manager

/-!
# Authenticated calls and the management of what they use

A call of the data plane holds the grant it was authenticated with, as it was read
then, and goes through `acquire`, at most one `invoke_tool`, and the `finally` of
`acquire`.  Between two of its awaits the owner may change exports, grants and the
registry, and other calls go on.

* `Phase`, `Call`, `System`: where each call is, and the manager.
* `Event`, `System.after`, `System.run`: the interleavings.
* `System.handed`: the tool an event hands to the gateway.
-/

namespace AI2Apps.Sharing

/-- What a call awaits or does next. -/
inductive Phase where
  /-- Authenticated, before the lock of `acquire`. -/
  | entering
  /-- Its slot is taken, the request not yet counted. -/
  | counted
  /-- The body of `acquire`. -/
  | admitted
  /-- `invoke_tool`, at the gateway. -/
  | executing
  /-- The `finally` of `acquire`, before the lock. -/
  | leaving (admitted : Bool)
  | done
  deriving DecidableEq

/-- A slot of the grant is held. -/
def Phase.holdsSlot : Phase → Bool
  | .entering | .done => false
  | _ => true

/-- Admitted by `acquire`, and not finished. -/
def Phase.unfinished : Phase → Bool
  | .admitted | .executing | .leaving true => true
  | _ => false

/-- A tool may still be handed over. -/
def Phase.mayInvoke : Phase → Bool
  | .entering | .counted | .admitted => true
  | _ => false

structure Call where
  grant : ShareGrant
  phase : Phase

structure System where
  registry : Registry
  db : Db
  /-- `_active`. -/
  active : Dict Str ℤ
  calls : List Call
  /-- The grants of the calls admitted so far. -/
  admissions : List Str

def System.initial : System := ⟨.empty, .empty, .empty, [], []⟩

inductive Event where
  | createExport (bindings : Bindings) (kind : CapabilityKind)
      (targetId displayName createdByUserId exportId : Str) (now : ℤ)
  | setExportStatus (exportId status : Str)
  | createGrant (label : Str) (exportIds : List Str) (maxConcurrency : ℤ)
      (expiresInSeconds : Option ℤ) (createdByUserId : Str) (maxRequests : Option ℤ)
      (token grantId : Str) (now : ℤ)
  | rotateGrant (grantId token : Str)
  | revokeGrant (grantId : Str)
  /-- Services and tools are registered, changed or removed. -/
  | updateRegistry (registry : Registry)
  | authenticate (grantId token : Str) (now : ℤ)
  /-- `acquire` under the lock. -/
  | enter (call : ℕ)
  /-- `acquire`, the request budget. -/
  | admitCall (call : ℕ)
  | invoke (call : ℕ) (qualifiedName : Str)
  /-- The body of `acquire` returns or raises, at the gateway or elsewhere. -/
  | settle (call : ℕ)
  /-- The `finally` of `acquire`. -/
  | release (call : ℕ)
  /-- The task is cancelled at its await. -/
  | cancel (call : ℕ)

/-- The tables after a statement that may have raised. -/
def System.withDb (s : System) : Except Raised Db → System
  | .ok db => { s with db }
  | .error _ => s

/-- The call goes on to a phase. -/
def System.move (s : System) (i : ℕ) (c : Call) (phase : Phase) : System :=
  { s with calls := s.calls.set i { c with phase } }

/-- `_active.get(grant_id, 0)`. -/
def System.taken (s : System) (grantId : Str) : ℤ := (s.active.get? grantId).getD 0

def enter (s : System) (i : ℕ) (c : Call) : System :=
  if c.grant.maxConcurrency ≤ s.taken c.grant.id then s.move i c .done
  else
    { s with active := s.active.put c.grant.id (s.taken c.grant.id + 1) }.move i c .counted

/-- The statement of `acquire`, and the admission. -/
def System.count (s : System) (g : Str) : System :=
  { s with
    db := { s.db with
      grants := s.db.grants.update (admits g)
        (fun g => { g with requestCount := g.requestCount + 1 }) fun _ => rfl }
    admissions := s.admissions ++ [g] }

def admitCall (s : System) (i : ℕ) (c : Call) : System :=
  if s.db.grants.rows.any (admits c.grant.id) then (s.count c.grant.id).move i c .admitted
  else s.move i c (.leaving false)

def invoke (s : System) (i : ℕ) (c : Call) (qualifiedName : Str) : System :=
  match invokeTool s.registry c.grant qualifiedName with
  | .ok _ => s.move i c .executing
  | .error _ => s.move i c (.leaving true)

def release (s : System) (i : ℕ) (c : Call) : System :=
  let remaining := (s.active.get? c.grant.id).getD 1 - 1
  if remaining ≠ 0 then { s with active := s.active.put c.grant.id remaining }.move i c .done
  else { s with active := s.active.erase c.grant.id }.move i c .done

/-- Cancelled at a lock the call ends where it is, in the body in the `finally`. -/
def cancel (s : System) (i : ℕ) (c : Call) : System :=
  match c.phase with
  | .admitted | .executing => s.move i c (.leaving true)
  | _ => s.move i c .done

/-- An event of a call that is in the phase for it. -/
def System.atCall (s : System) (i : ℕ) (due : Phase → Bool) (f : Call → System) : System :=
  match s.calls[i]? with
  | some c => if due c.phase then f c else s
  | none => s

def System.after (digest : Str → Str) (s : System) : Event → System
  | .createExport bindings kind targetId displayName createdByUserId exportId now =>
    s.withDb (Sharing.createExport bindings s.registry s.db kind targetId displayName
      createdByUserId exportId now)
  | .setExportStatus exportId status => s.withDb (Sharing.setExportStatus s.db exportId status)
  | .createGrant label exportIds maxConcurrency expiresInSeconds createdByUserId maxRequests token
      grantId now =>
    s.withDb (Sharing.createGrant digest s.db label exportIds maxConcurrency expiresInSeconds
      createdByUserId maxRequests token grantId now)
  | .rotateGrant grantId token => s.withDb (Sharing.rotateGrant digest s.db grantId token)
  | .revokeGrant grantId => s.withDb (Sharing.revokeGrant s.db grantId)
  | .updateRegistry registry => { s with registry }
  | .authenticate grantId token now =>
    match Sharing.authenticate digest s.db grantId token now with
    | .ok grant => { s with calls := s.calls ++ [⟨grant, .entering⟩] }
    | .error _ => s
  | .enter i => s.atCall i (· = .entering) (enter s i)
  | .admitCall i => s.atCall i (· = .counted) (admitCall s i)
  | .invoke i qualifiedName => s.atCall i (· = .admitted) fun c => invoke s i c qualifiedName
  | .settle i => s.atCall i (fun p => p = .admitted || p = .executing)
      fun c => s.move i c (.leaving true)
  | .release i => s.atCall i (fun p => p = .leaving true || p = .leaving false) (release s i)
  | .cancel i => s.atCall i (· ≠ .done) (cancel s i)

def System.run (digest : Str → Str) (s : System) (events : List Event) : System :=
  events.foldl (System.after digest) s

/-- The grant and the tool that an event hands to the gateway. -/
def System.handed (s : System) : Event → Option (Str × ToolDescriptor)
  | .invoke i qualifiedName =>
    match s.calls[i]? with
    | some c =>
      if c.phase = .admitted then
        match invokeTool s.registry c.grant qualifiedName with
        | .ok tool => some (c.grant.id, tool)
        | .error _ => none
      else none
    | none => none
  | _ => none

end AI2Apps.Sharing
