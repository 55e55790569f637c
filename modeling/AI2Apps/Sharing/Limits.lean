import AI2Apps.Sharing.Calls

/-!
# Slots, budgets and revocation

What `acquire` promises of a grant does not depend on the snapshot a call holds: the
slots in `_active` cover the calls that hold one, a request is counted by the statement
that checks the budget and the status, and no statement makes a revoked grant active.

* `Books`: slots, limits and counts agree; `books_run` keeps them.
* `closed_run`: nothing is admitted for a revoked grant.
* `limits_run`: the limits in every state of every run.
-/

namespace AI2Apps.Sharing

/-! ## The books -/

section Books

variable {s s' : System} {i : ℕ} {c : Call} {phase : Phase} {g : Str}

/-- The calls that hold a slot of the grant. -/
def System.slots (s : System) (g : Str) : ℕ :=
  s.calls.countP fun c => c.grant.id = g && c.phase.holdsSlot

/-- The calls that were admitted for the grant and are not finished. -/
def System.unfinished (s : System) (g : Str) : ℕ :=
  s.calls.countP fun c => c.grant.id = g && c.phase.unfinished

/-- `max_concurrency` of the row, if there is one. -/
def System.limit (s : System) (g : Str) : ℤ :=
  ((s.db.grants.get? g).map GrantRow.maxConcurrency).getD 0

/-- `request_count` of the row, if there is one. -/
def System.requests (s : System) (g : Str) : ℤ :=
  ((s.db.grants.get? g).map GrantRow.requestCount).getD 0

structure Books (s : System) : Prop where
  slots_le : ∀ g, (s.slots g : ℤ) ≤ s.taken g
  taken_le : ∀ g, s.taken g ≤ s.limit g
  counted : ∀ g, (s.admissions.count g : ℤ) = s.requests g
  budget : ∀ g row, s.db.grants.get? g = some row → ∀ m, row.maxRequests = some m →
    row.requestCount ≤ m
  issued : ∀ c ∈ s.calls, ∃ row, s.db.grants.get? c.grant.id = some row ∧
    row.maxConcurrency = c.grant.maxConcurrency

theorem books_initial : Books .initial where
  slots_le _ := le_rfl
  taken_le _ := le_rfl
  counted _ := rfl
  budget _ _ h := by cases h
  issued _ h := by cases h

/-- The books are about the grants, the slots and the calls. -/
theorem Books.congr (h : Books s) (hgrants : s'.db.grants = s.db.grants)
    (hactive : s'.active = s.active) (hcalls : s'.calls = s.calls)
    (hadmissions : s'.admissions = s.admissions) : Books s' where
  slots_le g := by
    rw [System.slots, hcalls, System.taken, hactive]
    exact h.slots_le g
  taken_le g := by
    rw [System.taken, hactive, System.limit, hgrants]
    exact h.taken_le g
  counted g := by
    rw [hadmissions, System.requests, hgrants]
    exact h.counted g
  budget := by
    rw [hgrants]
    exact h.budget
  issued := by
    rw [hgrants, hcalls]
    exact h.issued

/-- A change of rows that keeps their limits and counts. -/
theorem Books.update (h : Books s) {p : GrantRow → Bool} {f : GrantRow → GrantRow}
    (hf : ∀ r, (f r).id = r.id) (hconcurrency : ∀ r, (f r).maxConcurrency = r.maxConcurrency)
    (hbudget : ∀ r, (f r).maxRequests = r.maxRequests)
    (hcount : ∀ r, (f r).requestCount = r.requestCount) :
    Books { s with db := { s.db with grants := s.db.grants.update p f hf } } := by
  have hget : ∀ g, (s.db.grants.update p f hf).get? g =
      (s.db.grants.get? g).map fun r => if p r then f r else r :=
    fun g => Table.get?_update s.db.grants p f hf g
  refine ⟨h.slots_le, fun g => ?_, fun g => ?_, fun g row hrow m hm => ?_, fun c hc => ?_⟩
  · have hlimit := h.taken_le g
    rw [System.limit] at hlimit ⊢
    rw [hget g]
    cases hrow : s.db.grants.get? g with
    | none =>
      rw [hrow] at hlimit
      exact hlimit
    | some row =>
      rw [hrow] at hlimit
      simp only [Option.map_some, Option.getD_some] at hlimit ⊢
      split_ifs
      · rw [hconcurrency]
        exact hlimit
      · exact hlimit
  · have hcounted := h.counted g
    rw [System.requests] at hcounted ⊢
    rw [hget g]
    cases hrow : s.db.grants.get? g with
    | none =>
      rw [hrow] at hcounted
      exact hcounted
    | some row =>
      rw [hrow] at hcounted
      simp only [Option.map_some, Option.getD_some] at hcounted ⊢
      split_ifs
      · rw [hcount]
        exact hcounted
      · exact hcounted
  · rw [hget g] at hrow
    obtain ⟨row', hrow', rfl⟩ := Option.map_eq_some_iff.mp hrow
    split_ifs at hm ⊢
    · rw [hbudget] at hm
      rw [hcount]
      exact h.budget g row' hrow' m hm
    · exact h.budget g row' hrow' m hm
  · obtain ⟨row, hrow, hmax⟩ := h.issued c hc
    refine ⟨if p row then f row else row, ?_, ?_⟩
    · rw [hget, hrow, Option.map_some]
    · split_ifs
      · rw [hconcurrency, hmax]
      · exact hmax

/-! ## Calls that go on -/

theorem countP_move (p : Call → Bool) (h : s.calls[i]? = some c) :
    (s.move i c phase).calls.countP p + (p c).toNat =
      s.calls.countP p + (p { c with phase }).toNat := by
  obtain ⟨hi, hc⟩ := List.getElem?_eq_some_iff.mp h
  have hset := List.countP_set (p := p) (l := s.calls) (a := { c with phase }) hi
  have hpos : (p c).toNat ≤ s.calls.countP p := by
    cases hp : p c with
    | false => exact Nat.zero_le _
    | true => exact List.countP_pos_iff.mpr ⟨c, List.mem_of_getElem? h, hp⟩
  rw [hc] at hset
  show (s.calls.set i { c with phase }).countP p + _ = _
  rw [hset]
  cases hp : p c <;> cases hq : p { c with phase } <;> simp only [hp, Bool.toNat_true,
    Bool.toNat_false, if_true, if_false, Bool.false_eq_true] at hpos ⊢ <;> omega

theorem slots_move (h : s.calls[i]? = some c) (phase : Phase) (g : Str) :
    (s.move i c phase).slots g + (decide (c.grant.id = g) && c.phase.holdsSlot).toNat =
      s.slots g + (decide (c.grant.id = g) && phase.holdsSlot).toNat :=
  countP_move _ h

theorem issued_move (hc : s.calls[i]? = some c)
    (h : ∀ c ∈ s.calls, ∃ row, s.db.grants.get? c.grant.id = some row ∧
      row.maxConcurrency = c.grant.maxConcurrency) :
    ∀ c' ∈ (s.move i c phase).calls, ∃ row, s.db.grants.get? c'.grant.id = some row ∧
      row.maxConcurrency = c'.grant.maxConcurrency := by
  intro c' hc'
  rcases List.mem_or_eq_of_mem_set hc' with hmem | rfl
  · exact h c' hmem
  · exact h c (List.mem_of_getElem? hc)

/-- A call that takes no slot by going on. -/
theorem Books.move (h : Books s) (hc : s.calls[i]? = some c)
    (hslot : phase.holdsSlot = true → c.phase.holdsSlot = true) : Books (s.move i c phase) where
  slots_le g := by
    have hmove := slots_move hc phase g
    have hle : (decide (c.grant.id = g) && phase.holdsSlot).toNat ≤
        (decide (c.grant.id = g) && c.phase.holdsSlot).toNat := by
      cases hp : phase.holdsSlot with
      | false => simp
      | true => rw [hslot hp]
    have hslots := h.slots_le g
    have htaken : (s.move i c phase).taken g = s.taken g := rfl
    rw [htaken]
    omega
  taken_le := h.taken_le
  counted := h.counted
  budget := h.budget
  issued := issued_move hc h.issued

theorem taken_put (s : System) (g g' : Str) (n : ℤ) :
    ({ s with active := s.active.put g n } : System).taken g' = if g = g' then n else s.taken g' := by
  show ((s.active.put g n).get? g').getD 0 = _
  rw [Dict.get?_put]
  split_ifs <;> rfl

theorem taken_erase (s : System) (g g' : Str) :
    ({ s with active := s.active.erase g } : System).taken g' = if g = g' then 0 else s.taken g' := by
  show ((s.active.erase g).get? g').getD 0 = _
  rw [Dict.get?_erase]
  split_ifs <;> rfl

/-- A call whose slot is taken or given back in `_active` as it goes on. -/
theorem Books.retake (h : Books s) (hc : s.calls[i]? = some c) {active : Dict Str ℤ} {n : ℤ}
    (htaken : ∀ g, System.taken { s with active } g = if c.grant.id = g then n else s.taken g)
    (hn : n = s.taken c.grant.id - c.phase.holdsSlot.toNat + phase.holdsSlot.toNat)
    (hlimit : n ≤ s.limit c.grant.id) : Books ({ s with active }.move i c phase) where
  slots_le g := by
    have hmove := slots_move hc phase g
    have hslots := h.slots_le g
    show ((s.move i c phase).slots g : ℤ) ≤ System.taken { s with active } g
    rw [htaken]
    split_ifs with hg
    · subst hg
      simp only [decide_true, Bool.true_and] at hmove
      omega
    · simp only [decide_eq_false hg, Bool.false_and, Bool.toNat_false, add_zero] at hmove
      omega
  taken_le g := by
    show System.taken { s with active } g ≤ s.limit g
    rw [htaken]
    split_ifs with hg
    · subst hg
      exact hlimit
    · exact h.taken_le g
  counted := h.counted
  budget := h.budget
  issued := issued_move hc h.issued

/-- A slot is taken when there is one left. -/
theorem books_enter (h : Books s) (hc : s.calls[i]? = some c) (hphase : c.phase = .entering) :
    Books (enter s i c) := by
  unfold enter
  split_ifs with hfull
  · exact h.move hc fun hdone => absurd hdone Bool.false_ne_true
  · refine h.retake hc (fun g => taken_put s c.grant.id g _) ?_ ?_
    · rw [hphase]
      show _ = s.taken c.grant.id - 0 + 1
      rw [sub_zero]
    · obtain ⟨row, hrow, hmax⟩ := h.issued c (List.mem_of_getElem? hc)
      rw [System.limit, hrow, Option.map_some, Option.getD_some, hmax]
      omega

/-- A slot is given back by a call that holds one. -/
theorem books_release (h : Books s) (hc : s.calls[i]? = some c)
    (hholds : c.phase.holdsSlot = true) : Books (release s i c) := by
  have hpos : 1 ≤ s.slots c.grant.id := by
    refine List.countP_pos_iff.mpr ⟨c, List.mem_of_getElem? hc, ?_⟩
    rw [hholds, Bool.and_true, decide_eq_true_eq]
  have hslots := h.slots_le c.grant.id
  have hlimit := h.taken_le c.grant.id
  obtain ⟨n, hn⟩ : ∃ n, s.active.get? c.grant.id = some n := by
    cases hn : s.active.get? c.grant.id with
    | some n => exact ⟨n, rfl⟩
    | none =>
      rw [System.taken, hn, Option.getD_none] at hslots
      omega
  have heq : s.taken c.grant.id = n := by rw [System.taken, hn, Option.getD_some]
  have hgive : n - 1 = s.taken c.grant.id - c.phase.holdsSlot.toNat + Phase.done.holdsSlot.toNat := by
    rw [heq, hholds]
    exact (add_zero _).symm
  unfold release
  rw [hn, Option.getD_some]
  dsimp only
  split_ifs with hzero
  · exact h.retake hc (fun g => taken_put s c.grant.id g (n - 1)) hgive (by omega)
  · refine h.retake hc (fun g => (taken_erase s c.grant.id g).trans ?_) hgive (by omega)
    rw [not_not.mp hzero]

/-- The row of the grant is counted on, while it is active and within its budget. -/
theorem admits_iff {row : GrantRow} : admits g row = true ↔
    row.id = g ∧ row.status = .active ∧ ∀ m, row.maxRequests = some m → row.requestCount < m := by
  rw [admits, isActiveGrant, Bool.and_eq_true, Bool.and_eq_true, decide_eq_true_eq,
    decide_eq_true_eq, and_assoc]
  refine and_congr_right fun _ => and_congr_right fun _ => ?_
  cases row.maxRequests with
  | none => simp
  | some m => simp

theorem get?_count (s : System) (g g' : Str) : (s.count g).db.grants.get? g' =
    (s.db.grants.get? g').map fun r =>
      if admits g r then { r with requestCount := r.requestCount + 1 } else r :=
  Table.get?_update s.db.grants (admits g) (fun r => { r with requestCount := r.requestCount + 1 })
    (fun _ => rfl) g'

/-- **A request is counted with its admission.** -/
theorem Books.count (h : Books s) (hany : s.db.grants.rows.any (admits g) = true) :
    Books (s.count g) := by
  obtain ⟨row, hmem, hadmits⟩ := List.any_eq_true.mp hany
  obtain ⟨hid, -, hbelow⟩ := admits_iff.mp hadmits
  have hrow : s.db.grants.get? g = some row := Table.get?_eq_some_iff.mpr ⟨hmem, hid⟩
  have hother : ∀ {g' row'}, g ≠ g' → s.db.grants.get? g' = some row' →
      admits g row' = false := by
    intro g' row' hne hrow'
    rw [Bool.eq_false_iff]
    exact fun hadm => hne ((admits_iff.mp hadm).1.symm.trans (Table.key_of_get? hrow'))
  refine ⟨h.slots_le, fun g' => ?_, fun g' => ?_, fun g' row' hrow' m hm => ?_, fun c hc => ?_⟩
  · have hle := h.taken_le g'
    rw [System.limit] at hle ⊢
    rw [get?_count, Option.map_map]
    refine hle.trans_eq (congrArg (fun f => Option.getD (Option.map f _) 0) (funext fun r => ?_))
    show r.maxConcurrency = GrantRow.maxConcurrency (if _ then _ else r)
    split_ifs <;> rfl
  · have hcounted := h.counted g'
    show ((s.admissions ++ [g]).count g' : ℤ) = (s.count g).requests g'
    rw [List.count_append, List.count_singleton, System.requests, get?_count]
    rw [System.requests] at hcounted
    by_cases hg : g = g'
    · subst hg
      rw [hrow, Option.map_some, Option.getD_some] at hcounted
      rw [hrow, Option.map_some, Option.map_some, Option.getD_some, if_pos hadmits,
        beq_self_eq_true, if_pos rfl, Nat.cast_add, hcounted, Nat.cast_one]
    · rw [if_neg (by simpa using hg), Nat.add_zero, hcounted]
      cases hrow' : s.db.grants.get? g' with
      | none => rfl
      | some row' =>
        rw [Option.map_some, Option.map_some, Option.map_some, hother hg hrow',
          if_neg Bool.false_ne_true]
  · rw [get?_count] at hrow'
    obtain ⟨row₀, hrow₀, rfl⟩ := Option.map_eq_some_iff.mp hrow'
    by_cases hg : g = g'
    · subst hg
      obtain rfl : row₀ = row := Option.some.inj (hrow₀.symm.trans hrow)
      rw [if_pos hadmits] at hm ⊢
      exact Int.add_one_le_of_lt (hbelow m hm)
    · rw [hother hg hrow₀, if_neg Bool.false_ne_true] at hm ⊢
      exact h.budget g' row₀ hrow₀ m hm
  · obtain ⟨row', hrow', hmax⟩ := h.issued c hc
    refine ⟨_, by rw [get?_count, hrow', Option.map_some], ?_⟩
    split_ifs
    · exact hmax
    · exact hmax

theorem books_admit (h : Books s) (hc : s.calls[i]? = some c) (hphase : c.phase = .counted) :
    Books (admitCall s i c) := by
  have hholds : c.phase.holdsSlot = true := by rw [hphase]; rfl
  unfold admitCall
  split_ifs with hany
  · exact (h.count hany).move (s := s.count c.grant.id) hc fun _ => hholds
  · exact h.move hc fun _ => hholds

/-- A new grant has no slots taken and no request counted. -/
theorem Books.issue (h : Books s) {db : Db} {row : GrantRow} (hgrants : s.db.grants.insert? row =
    some db.grants) (hone : 1 ≤ row.maxConcurrency) (hzero : row.requestCount = 0)
    (hbudget : ∀ m, row.maxRequests = some m → 1 ≤ m) : Books { s with db } := by
  have hget : ∀ g, db.grants.get? g = if row.id = g then some row else s.db.grants.get? g :=
    Table.get?_insert hgrants
  have hfresh : s.db.grants.get? row.id = none := (Table.rows_insert hgrants).2
  refine ⟨h.slots_le, fun g => ?_, fun g => ?_, fun g row' hrow' m hm => ?_, fun c hc => ?_⟩
  · have hle := h.taken_le g
    show s.taken g ≤ Option.getD (Option.map _ (db.grants.get? g)) 0
    rw [hget]
    split_ifs with hg
    · subst hg
      rw [System.limit, hfresh] at hle
      exact (hle.trans zero_le_one).trans hone
    · exact hle
  · have hcounted := h.counted g
    show (s.admissions.count g : ℤ) = Option.getD (Option.map _ (db.grants.get? g)) 0
    rw [hget]
    split_ifs with hg
    · subst hg
      rw [System.requests, hfresh] at hcounted
      rw [hcounted, Option.map_some, Option.getD_some, hzero]
      rfl
    · exact hcounted
  · have hrow'' := (hget g).symm.trans hrow'
    split_ifs at hrow''
    · obtain rfl := Option.some.inj hrow''
      rw [hzero]
      exact (hbudget m hm).trans' zero_le_one
    · exact h.budget g row' hrow'' m hm
  · obtain ⟨row', hrow', hmax⟩ := h.issued c hc
    exact ⟨row', Table.get?_insert_of_some hgrants hrow', hmax⟩

end Books

/-! ## What one event does -/

section Steps

variable {digest : Str → Str} {s : System} {i : ℕ} {due : Phase → Bool} {f : Call → System}

theorem atCall_ind {P : System → Prop} (hs : P s)
    (hf : ∀ c, s.calls[i]? = some c → due c.phase = true → P (f c)) : P (s.atCall i due f) := by
  unfold System.atCall
  split
  · rename_i c hc
    split_ifs with hdue
    · exact hf c hc hdue
    · exact hs
  · exact hs

theorem withDb_ind {P : System → Prop} (hs : P s) {x : Except Raised Db}
    (hx : ∀ db, x = .ok db → P { s with db }) : P (s.withDb x) := by
  cases x with
  | ok db => exact hx db rfl
  | error e => exact hs

variable {db db' : Db} {grantId token g : Str} {now : ℤ}

/-- An export that is created is one more row, of a valid target. -/
theorem createExport_ok {bindings : Bindings} {registry : Registry} {kind : CapabilityKind}
    {targetId displayName createdByUserId exportId : Str}
    (h : createExport bindings registry db kind targetId displayName createdByUserId exportId now =
      .ok db') :
    ∃ protocols exports, validateExport bindings registry targetId kind = .ok protocols ∧
      db.exports.insert? ⟨exportId, kind, targetId, displayName, protocols, .active,
        createdByUserId, now⟩ = some exports ∧ db' = { db with exports } := by
  unfold createExport at h
  cases hvalid : validateExport bindings registry targetId kind with
  | error e =>
    rw [hvalid] at h
    cases h
  | ok protocols =>
    rw [hvalid] at h
    dsimp only [bind, Except.bind, pure, Except.pure, throw, throwThe, MonadExceptOf.throw] at h
    split_ifs at h
    split at h
    · rename_i exports hinsert
      exact ⟨protocols, exports, rfl, hinsert, (Except.ok.inj h).symm⟩
    · cases h

theorem setExportStatus_ok {exportId status : Str} (h : setExportStatus db exportId status = .ok db') :
    ∃ st, ExportStatus.ofText? status = some st ∧ db' = { db with
      exports := db.exports.update (fun e => e.id = exportId && e.status ≠ .revoked)
        (fun e => { e with status := st }) fun _ => rfl } := by
  unfold setExportStatus at h
  split at h
  · cases h
  · rename_i st hst
    split_ifs at h
    exact ⟨st, hst, (Except.ok.inj h).symm⟩

/-- A grant that is created is one more row, within the bounds of its fields. -/
theorem createGrant_ok {label : Str} {exportIds : List Str} {maxConcurrency : ℤ}
    {expiresInSeconds maxRequests : Option ℤ} {createdByUserId : Str}
    (h : createGrant digest db label exportIds maxConcurrency expiresInSeconds createdByUserId
      maxRequests token grantId now = .ok db') :
    ∃ row, db.grants.insert? row = some db'.grants ∧ 1 ≤ row.maxConcurrency ∧
      row.requestCount = 0 ∧ (∀ m, row.maxRequests = some m → 1 ≤ m) ∧ db'.exports = db.exports ∧
      ∃ more, db'.grantExports = db.grantExports ++ more := by
  unfold createGrant at h
  dsimp only [bind, Except.bind, pure, Except.pure, throw, throwThe, MonadExceptOf.throw] at h
  split_ifs at h with hempty hconcurrency hbudget hmissing htexts hdigest
  split at h
  · rename_i grants hinsert
    obtain rfl := Except.ok.inj h
    refine ⟨_, hinsert, hconcurrency.1, rfl, fun m hm => ?_, rfl, _, rfl⟩
    have hm' : maxRequests = some m := hm
    subst hm'
    by_contra hlow
    refine hbudget (decide_eq_true fun hboth => hlow hboth.1)
  · cases h

theorem rotateGrant_ok (h : rotateGrant digest db grantId token = .ok db') :
    db' = { db with
      grants := db.grants.update (isActiveGrant grantId)
        (fun g => { g with tokenDigest := digest token }) fun _ => rfl } := by
  unfold rotateGrant at h
  split_ifs at h
  exact (Except.ok.inj h).symm

theorem revokeGrant_ok (h : revokeGrant db grantId = .ok db') :
    db' = { db with
      grants := db.grants.update (isActiveGrant grantId)
        (fun g => { g with status := .revoked }) fun _ => rfl } := by
  unfold revokeGrant at h
  split_ifs at h
  exact (Except.ok.inj h).symm

/-- Who is authenticated holds the grant as its row is. -/
theorem authenticate_ok {grant : ShareGrant} (h : authenticate digest db grantId token now = .ok grant) :
    ∃ row, db.grants.get? grantId = some row ∧ grant = db.grant row := by
  unfold authenticate at h
  split_ifs at h
  split at h
  · cases h
  · rename_i row hrow
    split_ifs at h
    exact ⟨row, (Option.filter_eq_some_iff.mp hrow).1, (Except.ok.inj h).symm⟩

/-- **Every event keeps the books.** -/
theorem books_after (h : Books s) (digest : Str → Str) (e : Event) : Books (s.after digest e) := by
  cases e with
  | createExport bindings kind targetId displayName createdByUserId exportId now =>
    refine withDb_ind h fun db hdb => ?_
    obtain ⟨protocols, exports, -, -, rfl⟩ := createExport_ok hdb
    exact h.congr rfl rfl rfl rfl
  | setExportStatus exportId status =>
    refine withDb_ind h fun db hdb => ?_
    obtain ⟨st, -, rfl⟩ := setExportStatus_ok hdb
    exact h.congr rfl rfl rfl rfl
  | createGrant label exportIds maxConcurrency expires createdBy maxRequests token grantId now =>
    refine withDb_ind h fun db hdb => ?_
    obtain ⟨row, hinsert, hone, hzero, hbudget, -, -⟩ := createGrant_ok hdb
    exact h.issue hinsert hone hzero hbudget
  | rotateGrant grantId token =>
    refine withDb_ind h fun db hdb => ?_
    rw [rotateGrant_ok hdb]
    exact h.update _ (fun _ => rfl) (fun _ => rfl) fun _ => rfl
  | revokeGrant grantId =>
    refine withDb_ind h fun db hdb => ?_
    rw [revokeGrant_ok hdb]
    exact h.update _ (fun _ => rfl) (fun _ => rfl) fun _ => rfl
  | updateRegistry registry => exact h.congr rfl rfl rfl rfl
  | authenticate grantId token now =>
    unfold System.after
    dsimp only
    cases hauth : Sharing.authenticate digest s.db grantId token now with
    | error e => exact h
    | ok grant =>
      obtain ⟨row, hrow, rfl⟩ := authenticate_ok hauth
      refine ⟨fun g => ?_, h.taken_le, h.counted, h.budget, fun c hc => ?_⟩
      · have hslots : System.slots { s with calls := s.calls ++ [⟨s.db.grant row, .entering⟩] } g =
            s.slots g := by
          rw [System.slots, List.countP_append, List.countP_singleton]
          simp [Phase.holdsSlot, System.slots]
        rw [hslots]
        exact h.slots_le g
      · rcases List.mem_append.mp hc with hmem | hmem
        · exact h.issued c hmem
        · obtain rfl := List.mem_singleton.mp hmem
          refine ⟨row, ?_, rfl⟩
          rw [← Table.key_of_get? hrow] at hrow
          exact hrow
  | enter i =>
    rw [System.after]
    exact atCall_ind h fun c hc hdue => books_enter h hc (of_decide_eq_true hdue)
  | admitCall i =>
    rw [System.after]
    exact atCall_ind h fun c hc hdue => books_admit h hc (of_decide_eq_true hdue)
  | invoke i qualifiedName =>
    rw [System.after]
    refine atCall_ind h fun c hc hdue => ?_
    have hphase : c.phase = .admitted := of_decide_eq_true hdue
    unfold invoke
    split
    · exact h.move hc fun _ => by rw [hphase]; rfl
    · exact h.move hc fun _ => by rw [hphase]; rfl
  | settle i =>
    rw [System.after]
    refine atCall_ind h fun c hc hdue => h.move hc fun _ => ?_
    rcases Bool.or_eq_true_iff.mp hdue with hphase | hphase
    · rw [of_decide_eq_true hphase]; rfl
    · rw [of_decide_eq_true hphase]; rfl
  | release i =>
    rw [System.after]
    refine atCall_ind h fun c hc hdue => books_release h hc ?_
    rcases Bool.or_eq_true_iff.mp hdue with hphase | hphase
    · rw [of_decide_eq_true hphase]; rfl
    · rw [of_decide_eq_true hphase]; rfl
  | cancel i =>
    rw [System.after]
    refine atCall_ind h fun c hc _ => ?_
    unfold cancel
    split
    · rename_i hphase
      exact h.move hc fun _ => by rw [hphase]; rfl
    · rename_i hphase
      exact h.move hc fun _ => by rw [hphase]; rfl
    · exact h.move hc fun hdone => absurd hdone Bool.false_ne_true

theorem books_run (h : Books s) (digest : Str → Str) (events : List Event) : Books (s.run digest events) := by
  induction events generalizing s with
  | nil => exact h
  | cons e events ih => exact ih (books_after h digest e)

/-! ## Revoked grants -/

/-- The row is there and revoked. -/
def Revoked (s : System) (g : Str) : Prop :=
  ∃ row, s.db.grants.get? g = some row ∧ row.status = .revoked

/-- Nothing has changed for a revoked grant. -/
def Closed (g : Str) (admissions : List Str) (s : System) : Prop :=
  Revoked s g ∧ s.admissions.count g = admissions.count g

/-- A change of rows that revives none. -/
theorem Revoked.update (h : Revoked s g) {p : GrantRow → Bool} {f : GrantRow → GrantRow}
    (hf : ∀ r, (f r).id = r.id) (hstatus : ∀ r, r.status = .revoked → (f r).status = .revoked) {t : System}
    (ht : t.db.grants = s.db.grants.update p f hf) : Revoked t g := by
  obtain ⟨row, hrow, hrevoked⟩ := h
  refine ⟨if p row then f row else row, ?_, ?_⟩
  · rw [ht, Table.get?_update, hrow, Option.map_some]
  · split_ifs
    · exact hstatus row hrevoked
    · exact hrevoked

/-- **No event admits a call for a revoked grant, or makes it active.** -/
theorem closed_after {admissions : List Str} (h : Closed g admissions s) (e : Event) :
    Closed g admissions (s.after digest e) := by
  obtain ⟨hrevoked, hcount⟩ := h
  have still : ∀ {t : System}, t.db.grants = s.db.grants → t.admissions = s.admissions →
      Closed g admissions t := by
    intro t hgrants hadmissions
    refine ⟨?_, by rw [hadmissions, hcount]⟩
    rw [Revoked, hgrants]
    exact hrevoked
  cases e with
  | createExport bindings kind targetId displayName createdByUserId exportId now =>
    refine withDb_ind ⟨hrevoked, hcount⟩ fun db hdb => ?_
    obtain ⟨protocols, exports, -, -, rfl⟩ := createExport_ok hdb
    exact still rfl rfl
  | setExportStatus exportId status =>
    refine withDb_ind ⟨hrevoked, hcount⟩ fun db hdb => ?_
    obtain ⟨st, -, rfl⟩ := setExportStatus_ok hdb
    exact still rfl rfl
  | createGrant label exportIds maxConcurrency expires createdBy maxRequests token grantId now =>
    refine withDb_ind ⟨hrevoked, hcount⟩ fun db hdb => ⟨?_, hcount⟩
    obtain ⟨row, hinsert, -⟩ := createGrant_ok hdb
    obtain ⟨row', hrow', hstatus⟩ := hrevoked
    exact ⟨row', Table.get?_insert_of_some hinsert hrow', hstatus⟩
  | rotateGrant grantId token =>
    refine withDb_ind ⟨hrevoked, hcount⟩ fun db hdb => ⟨?_, hcount⟩
    exact hrevoked.update (f := fun g => { g with tokenDigest := digest token }) (fun _ => rfl)
      (fun _ h => h) (congrArg Db.grants (rotateGrant_ok hdb))
  | revokeGrant grantId =>
    refine withDb_ind ⟨hrevoked, hcount⟩ fun db hdb => ⟨?_, hcount⟩
    exact hrevoked.update (f := fun g => { g with status := .revoked }) (fun _ => rfl)
      (fun _ _ => rfl) (congrArg Db.grants (revokeGrant_ok hdb))
  | updateRegistry registry => exact still rfl rfl
  | authenticate grantId token now =>
    unfold System.after
    dsimp only
    cases Sharing.authenticate digest s.db grantId token now with
    | error e => exact still rfl rfl
    | ok grant => exact still rfl rfl
  | enter i =>
    rw [System.after]
    refine atCall_ind ⟨hrevoked, hcount⟩ fun c _ _ => ?_
    unfold enter
    split_ifs
    · exact still rfl rfl
    · exact still rfl rfl
  | admitCall i =>
    rw [System.after]
    refine atCall_ind ⟨hrevoked, hcount⟩ fun c _ _ => ?_
    unfold admitCall
    split_ifs with hany
    · refine ⟨hrevoked.update (p := admits c.grant.id)
        (f := fun g => { g with requestCount := g.requestCount + 1 }) (fun _ => rfl)
        (fun _ h => h) rfl, ?_⟩
      show (s.admissions ++ [c.grant.id]).count g = _
      -- the statement would have found the row active
      have hne : c.grant.id ≠ g := by
        rintro rfl
        obtain ⟨row, hmem, hadmits⟩ := List.any_eq_true.mp hany
        obtain ⟨hid, hactive, -⟩ := admits_iff.mp hadmits
        obtain ⟨row', hrow', hstatus⟩ := hrevoked
        rw [Table.get?_eq_some_iff.mpr ⟨hmem, hid⟩] at hrow'
        rw [← Option.some.inj hrow', hactive] at hstatus
        cases hstatus
      rw [List.count_append, List.count_singleton, if_neg (by simpa using hne), Nat.add_zero, hcount]
    · exact still rfl rfl
  | invoke i qualifiedName =>
    rw [System.after]
    refine atCall_ind ⟨hrevoked, hcount⟩ fun c _ _ => ?_
    unfold invoke
    split
    · exact still rfl rfl
    · exact still rfl rfl
  | settle i =>
    rw [System.after]
    exact atCall_ind ⟨hrevoked, hcount⟩ fun c _ _ => still rfl rfl
  | release i =>
    rw [System.after]
    refine atCall_ind ⟨hrevoked, hcount⟩ fun c _ _ => ?_
    unfold release
    dsimp only
    split_ifs
    · exact still rfl rfl
    · exact still rfl rfl
  | cancel i =>
    rw [System.after]
    refine atCall_ind ⟨hrevoked, hcount⟩ fun c _ _ => ?_
    unfold cancel
    split
    · exact still rfl rfl
    · exact still rfl rfl
    · exact still rfl rfl

theorem closed_run {admissions : List Str} (h : Closed g admissions s) (events : List Event) :
    Closed g admissions (s.run digest events) := by
  induction events generalizing s with
  | nil => exact h
  | cons e events ih => exact ih (closed_after h e)

theorem unfinished_le_slots (s : System) (g : Str) : s.unfinished g ≤ s.slots g := by
  refine List.countP_mono_left fun c _ hc => ?_
  rw [Bool.and_eq_true] at hc ⊢
  refine ⟨hc.1, ?_⟩
  cases hphase : c.phase with
  | entering => rw [hphase] at hc; exact absurd hc.2 Bool.false_ne_true
  | done => rw [hphase] at hc; exact absurd hc.2 Bool.false_ne_true
  | counted | admitted | executing | leaving => rfl

end Steps

/-- **The limits of a grant hold in every run**: admissions stay within `max_requests`,
unfinished calls within `max_concurrency`, and a revoked grant is never admitted again. -/
theorem limits_run (digest : Str → Str) (events : List Event) :
    ∀ row ∈ (System.initial.run digest events).db.grants.rows,
      (∀ m, row.maxRequests = some m →
        ((System.initial.run digest events).admissions.count row.id : ℤ) ≤ m) ∧
      ((System.initial.run digest events).unfinished row.id : ℤ) ≤ row.maxConcurrency ∧
      (row.status = .revoked → ∀ later,
        ((System.initial.run digest events).run digest later).admissions.count row.id =
          (System.initial.run digest events).admissions.count row.id) := by
  intro row hmem
  have h := books_run books_initial digest events
  have hrow := Table.get?_of_mem hmem
  refine ⟨fun m hm => ?_, ?_, fun hrevoked later => ?_⟩
  · rw [h.counted, System.requests, hrow, Option.map_some, Option.getD_some]
    exact h.budget row.id row hrow m hm
  · have hlimit := h.taken_le row.id
    rw [System.limit, hrow, Option.map_some, Option.getD_some] at hlimit
    have hslots := h.slots_le row.id
    have hunfinished := unfinished_le_slots (System.initial.run digest events) row.id
    omega
  · exact (closed_run ⟨⟨row, hrow, hrevoked⟩, rfl⟩ later).2

namespace Sample

def echo : ToolDescriptor := ⟨str "tool_1", str "svc_1", str "system.echo", [], [], [], true⟩

def registry : Registry where
  services := [⟨str "svc_1", str "ai2apps.diagnostics", .enabled⟩]
  tools := [echo]
  serviceIds := List.nodup_singleton _
  serviceKeys := List.nodup_singleton _
  toolIds := List.nodup_singleton _
  toolNames := List.nodup_singleton _

/-- The owner shares a tool, and a client calls it. -/
def shared : List Event :=
  [.updateRegistry registry,
    .createExport ⟨none, none⟩ .tool (str "system.echo") (str "Echo") (str "owner") (str "exp") 0,
    .createGrant (str "Client") [str "exp"] 2 none (str "owner") (some 3) (str "token") (str "shr") 0,
    .authenticate (str "shr") (str "token") 1, .enter 0, .admitCall 0]

/-- The client's grant, after the call was admitted. -/
def grant : GrantRow :=
  ⟨str "shr", str "Client", str "token", .active, 2, some 3, none, 1⟩

end Sample

/-- The grant of the client keeps its limits of three requests and two calls. -/
theorem limits_run_echo :
    ((System.initial.run id Sample.shared).admissions.count (str "shr") : ℤ) ≤ 3 ∧
      ((System.initial.run id Sample.shared).unfinished (str "shr") : ℤ) ≤ 2 :=
  have h := limits_run id Sample.shared Sample.grant (List.mem_singleton_self Sample.grant)
  ⟨h.1 3 rfl, h.2.1⟩

end AI2Apps.Sharing
