import AI2Apps.Events.Stream

/-!
# Every event once, in order, and no lost wake-up

What a client has received is always what its filter selects of the committed events up
to its cursor, across any number of lost connections.  A stream that waits with nothing
left to wake it has sent all that was committed when a notification was last owed,
because it subscribed before it read, and a transaction notifies after it commits.  What
stores without a bus have appended since waits for the next wake-up or the heartbeat.

* `Sound`: the cursor, what is on the way, and what is owed a wake-up.
* `delivery`: what the client has, in every state, and when the stream is quiet.
* `delivery_completes`: from every state the rest can still be delivered.
-/

namespace AI2Apps.Events

open Cursors

/-! ## What a transaction commits -/

section Store

variable {store store' : EventStore}

/-- The numbers increase, up to the last one. -/
structure EventStore.Numbered (store : EventStore) : Prop where
  ordered : Ordered EventRecord.sequence store.events
  le_last : ∀ e ∈ store.events, e.sequence ≤ store.lastSequence

theorem append_some {e : NewEvent} (h : store.append e = some store') :
    store' = ⟨store.events ++ [e.record (store.lastSequence + 1)], store.lastSequence + 1⟩ := by
  unfold EventStore.append at h
  split_ifs at h
  exact (Option.some.inj h).symm

/-- A transaction adds events with new, larger numbers, one for each append. -/
theorem transaction_some (hnumbered : store.Numbered) {es : List NewEvent}
    (h : store.transaction es = some store') :
    store'.Numbered ∧ ∃ more, store'.events = store.events ++ more ∧ more.length = es.length ∧
      (∀ e ∈ more, store.lastSequence < e.sequence) ∧ store.lastSequence ≤ store'.lastSequence := by
  induction es generalizing store with
  | nil =>
    obtain rfl := Option.some.inj h
    exact ⟨hnumbered, [], (List.append_nil _).symm, rfl, List.forall_mem_nil _, le_rfl⟩
  | cons e es ih =>
    unfold EventStore.transaction at h
    rw [List.foldlM_cons] at h
    obtain ⟨middle, hmiddle, hrest⟩ := Option.bind_eq_some_iff.mp h
    obtain rfl := append_some hmiddle
    have hstep : EventStore.Numbered
        ⟨store.events ++ [e.record (store.lastSequence + 1)], store.lastSequence + 1⟩ := by
      refine ⟨hnumbered.ordered.append (List.pairwise_singleton ..) fun a ha b hb => ?_,
        fun a ha => ?_⟩
      · rw [List.mem_singleton.mp hb]
        exact Int.lt_add_one_of_le (hnumbered.le_last a ha)
      · rcases List.mem_append.mp ha with hold | hnew
        · exact (hnumbered.le_last a hold).trans (Int.le_add_one le_rfl)
        · rw [List.mem_singleton.mp hnew]
          exact le_rfl
    obtain ⟨hnumbered', more, hevents, hlength, hlarger, hlast⟩ := ih hstep hrest
    refine ⟨hnumbered', e.record (store.lastSequence + 1) :: more, ?_, ?_, ?_, ?_⟩
    · rw [hevents, List.append_assoc, List.singleton_append]
    · rw [List.length_cons, hlength, List.length_cons]
    · rw [List.forall_mem_cons]
      exact ⟨Int.lt_succ _, fun a ha => (Int.lt_succ _).trans (hlarger a ha)⟩
    · exact (Int.le_add_one le_rfl).trans hlast

end Store

/-! ## The invariant -/

section Sound

variable {f : Filter} {start : ℤ} {batch : ℕ} {s : System}

/-- The events the client asked for. -/
def System.wanted (f : Filter) (start : ℤ) (s : System) : List EventRecord :=
  s.store.events.filter fun e => start < e.sequence && f.selects e

/-- Some of the events were there when a notification was last owed. -/
def System.Announces (s : System) (events : List EventRecord) : Prop :=
  ∃ e ∈ events, e.sequence ≤ s.announced

/-- Something is on its way to wake the stream. -/
def System.Owed (s : System) : Prop := 0 < s.hooks ∨ 0 < s.offers ∨ s.wake = true

/-- What the stream still has to do, by where it is. -/
def System.Ahead (f : Filter) (start : ℤ) (s : System) : Prop :=
  match s.pc with
  | .replaying rows full => ∃ more, beyond EventRecord.sequence s.cursor (s.wanted f start) =
      rows ++ more ∧ (full = false → s.Announces more → s.Owed)
  | .waiting => s.Announces (beyond EventRecord.sequence s.cursor (s.wanted f start)) → s.Owed
  | _ => True

structure Sound (f : Filter) (start : ℤ) (s : System) : Prop where
  numbered : s.store.Numbered
  announced_le : s.announced ≤ s.store.lastSequence
  start_le : start ≤ s.clientCursor
  cursor_le : s.clientCursor ≤ s.cursor
  /-- A cursor is where the client began, or at an event. -/
  bounded : s.cursor ≤ max start s.store.lastSequence
  received : upTo EventRecord.sequence s.clientCursor (s.wanted f start) = s.received
  sent : upTo EventRecord.sequence s.cursor (s.wanted f start) = s.received ++ s.sent
  ahead : s.Ahead f start

theorem Sound.ordered (h : Sound f start s) :
    Ordered EventRecord.sequence (s.wanted f start) := h.numbered.ordered.filter _

theorem sound_initial (f : Filter) (start : ℤ) : Sound f start (.initial start) where
  numbered := ⟨List.Pairwise.nil, fun _ h => by cases h⟩
  announced_le := le_rfl
  start_le := le_rfl
  cursor_le := le_rfl
  bounded := le_max_left _ _
  received := rfl
  sent := rfl
  ahead := trivial

/-- The stream ends: the next one begins where the client is. -/
theorem Sound.disconnected (h : Sound f start s) : Sound f start s.disconnected where
  numbered := h.numbered
  announced_le := h.announced_le
  start_le := h.start_le
  cursor_le := le_rfl
  bounded := h.cursor_le.trans h.bounded
  received := h.received
  sent := h.received.trans (List.append_nil _).symm
  ahead := trivial

/-- Only where the stream is has changed, and its wake-ups. -/
theorem Sound.goTo (h : Sound f start s) {hooks offers : ℕ} {wake : Bool} {pc : Pc}
    (hahead : System.Ahead f start { s with hooks, offers, wake, pc }) :
    Sound f start { s with hooks, offers, wake, pc } :=
  ⟨h.numbered, h.announced_le, h.start_le, h.cursor_le, h.bounded, h.received, h.sent, hahead⟩

/-- Wake-ups may be added anywhere. -/
theorem System.Ahead.mono {s' : System} (h : s.Ahead f start) (hpc : s'.pc = s.pc)
    (hcursor : s'.cursor = s.cursor) (hwanted : s'.wanted f start = s.wanted f start)
    (hannounced : s'.announced = s.announced) (howed : s.Owed → s'.Owed) : s'.Ahead f start := by
  unfold System.Ahead System.Announces at h ⊢
  rw [hpc, hcursor, hwanted, hannounced]
  cases hs : s.pc with
  | replaying rows full =>
    rw [hs] at h
    obtain ⟨more, heq, hmore⟩ := h
    exact ⟨more, heq, fun hfull hne => howed (hmore hfull hne)⟩
  | waiting =>
    rw [hs] at h
    exact fun hne => howed (h hne)
  | closed | starting | reading => trivial

/-- What was announced before is announced, and a new announcement owes a notification. -/
theorem System.Announces.committed {appends : List Append} {store : EventStore}
    {events more : List EventRecord} (hmore : ∀ e ∈ more, s.store.lastSequence < e.sequence)
    (hannounced : s.announced ≤ s.store.lastSequence)
    (h : (s.committed appends store).Announces (events ++ more)) :
    s.Announces events ∨ 0 < (s.committed appends store).hooks := by
  cases hany : appends.any Append.bus with
  | true =>
    refine .inr (Nat.add_pos_right _ (List.countP_pos_iff.mpr ?_))
    exact List.any_eq_true.mp hany
  | false =>
    obtain ⟨e, he, hle⟩ := h
    unfold System.committed at hle
    rw [hany] at hle
    rcases List.mem_append.mp he with he | he
    · exact .inl ⟨e, he, hle⟩
    · exact absurd ((hmore e he).trans_le hle) (not_lt.mpr hannounced)

/-- **A commit adds events to come, and owes notifications for those with a bus.** -/
theorem Sound.commit (h : Sound f start s) {appends : List Append} {store : EventStore}
    (hstore : s.store.transaction (appends.map Append.event) = some store) :
    Sound f start (s.committed appends store) := by
  obtain ⟨hnumbered, more, hevents, -, hlarger, hlast⟩ := transaction_some h.numbered hstore
  have hwanted : (s.committed appends store).wanted f start =
      s.wanted f start ++ more.filter fun e => start < e.sequence && f.selects e := by
    show store.events.filter _ = _
    rw [hevents, List.filter_append]
    rfl
  -- the new events are after the cursor
  have hnew : ∀ e ∈ more.filter (fun e => start < e.sequence && f.selects e),
      s.cursor < e.sequence := by
    intro e he
    obtain ⟨hmem, hselect⟩ := List.mem_filter.mp he
    have hstart : start < e.sequence := of_decide_eq_true (Bool.and_eq_true_iff.mp hselect).1
    exact h.bounded.trans_lt (max_lt hstart (hlarger e hmem))
  have hlater : ∀ e ∈ more.filter (fun e => start < e.sequence && f.selects e),
      s.store.lastSequence < e.sequence := fun e he => hlarger e (List.mem_filter.mp he).1
  have hupTo : ∀ c ≤ s.cursor, upTo EventRecord.sequence c ((s.committed appends store).wanted f start) =
      upTo EventRecord.sequence c (s.wanted f start) := by
    intro c hc
    rw [hwanted, upTo, List.filter_append]
    have hnone := upTo_eq_nil_iff.mpr fun e he => hc.trans_lt (hnew e he)
    rw [upTo] at hnone
    rw [hnone, List.append_nil]
    rfl
  have hbeyond : beyond EventRecord.sequence s.cursor ((s.committed appends store).wanted f start) =
      beyond EventRecord.sequence s.cursor (s.wanted f start) ++
        more.filter fun e => start < e.sequence && f.selects e := by
    rw [hwanted, beyond, List.filter_append]
    exact congrArg _ (beyond_eq_self hnew)
  have howed : s.Owed ∨ 0 < (s.committed appends store).hooks → (s.committed appends store).Owed := by
    rintro ((hhooks | hoffers | hwake) | hhooks)
    · exact .inl (Nat.add_pos_left hhooks _)
    · exact .inr (.inl hoffers)
    · exact .inr (.inr hwake)
    · exact .inl hhooks
  refine ⟨hnumbered, ?_, h.start_le, h.cursor_le, h.bounded.trans (max_le_max le_rfl hlast), ?_, ?_, ?_⟩
  · show (if appends.any Append.bus then store.lastSequence else s.announced) ≤ store.lastSequence
    split_ifs
    · exact le_rfl
    · exact h.announced_le.trans hlast
  · exact (hupTo _ h.cursor_le).trans h.received
  · exact (hupTo _ le_rfl).trans h.sent
  · have hahead := h.ahead
    unfold System.Ahead at hahead ⊢
    show match s.pc with
      | .replaying rows full => ∃ more, beyond EventRecord.sequence s.cursor
          ((s.committed appends store).wanted f start) = rows ++ more ∧
          (full = false → (s.committed appends store).Announces more →
            (s.committed appends store).Owed)
      | .waiting => (s.committed appends store).Announces (beyond EventRecord.sequence s.cursor
          ((s.committed appends store).wanted f start)) → (s.committed appends store).Owed
      | _ => True
    rw [hbeyond]
    cases hpc : s.pc with
    | replaying rows full =>
      rw [hpc] at hahead
      obtain ⟨rest, heq, hrest⟩ := hahead
      refine ⟨rest ++ more.filter (fun e => start < e.sequence && f.selects e), ?_,
        fun hfull hannounces => howed ?_⟩
      · rw [heq, List.append_assoc]
      · exact (hannounces.committed hlater h.announced_le).imp_left (hrest hfull)
    | waiting =>
      rw [hpc] at hahead
      exact fun hannounces => howed ((hannounces.committed hlater h.announced_le).imp_left hahead)
    | closed | starting | reading => trivial

/-- What `list_after` returns is a prefix of what is to come, and all of it unless the
batch is full. -/
theorem listAfter_some (h : Sound f start s) {rows : List EventRecord}
    (hrows : s.store.listAfter f s.cursor batch = some rows) :
    ∃ more, beyond EventRecord.sequence s.cursor (s.wanted f start) = rows ++ more ∧
      (rows.length ≠ batch → more = []) := by
  unfold EventStore.listAfter at hrows
  split_ifs at hrows with hneg hlimit
  obtain rfl := Option.some.inj hrows
  have hbeyond : beyond EventRecord.sequence s.cursor (s.wanted f start) =
      s.store.events.filter fun e => s.cursor < e.sequence && f.selects e := by
    rw [System.wanted, beyond, List.filter_filter]
    refine List.filter_congr fun e _ => ?_
    have hle := h.start_le.trans h.cursor_le
    by_cases hcursor : s.cursor < e.sequence
    · rw [decide_eq_true hcursor, decide_eq_true (hle.trans_lt hcursor)]
      rfl
    · rw [decide_eq_false hcursor, Bool.false_and, Bool.false_and]
  refine ⟨_, by rw [hbeyond]; exact (List.take_append_drop batch _).symm, fun hshort => ?_⟩
  rw [List.length_take] at hshort
  exact List.drop_eq_nil_of_le (by omega)

/-- The next event is yielded. -/
theorem Sound.yield (h : Sound f start s) {e : EventRecord} {rows : List EventRecord} {full : Bool}
    (hpc : s.pc = .replaying (e :: rows) full) :
    Sound f start { s with
      pc := .replaying rows full, cursor := e.sequence, sent := s.sent ++ [e] } := by
  have hahead := h.ahead
  unfold System.Ahead at hahead
  rw [hpc] at hahead
  obtain ⟨more, heq, hmore⟩ := hahead
  have hlt := lt_of_beyond heq
  have hmem : e ∈ s.store.events := by
    have hin : e ∈ beyond EventRecord.sequence s.cursor (s.wanted f start) := by
      rw [heq]
      exact List.mem_cons_self ..
    exact (List.mem_filter.mp (List.mem_filter.mp hin).1).1
  refine ⟨h.numbered, h.announced_le, h.start_le, h.cursor_le.trans hlt.le, ?_, h.received, ?_, more, ?_,
    hmore⟩
  · exact (h.numbered.le_last e hmem).trans (le_max_right _ _)
  · show upTo EventRecord.sequence e.sequence (s.wanted f start) = s.received ++ (s.sent ++ [e])
    rw [upTo_advance h.ordered heq, h.sent, List.append_assoc]
  · exact beyond_advance h.ordered heq

/-- The oldest event on the way arrives. -/
theorem Sound.deliver (h : Sound f start s) {e : EventRecord} {sent : List EventRecord}
    (hsent : s.sent = e :: sent) :
    Sound f start { s with
      sent, received := s.received ++ [e], clientCursor := e.sequence } := by
  have hsplit := h.sent
  rw [hsent] at hsplit
  -- what is on the way is what the client's cursor has before it, up to the stream's
  have hbeyond : beyond EventRecord.sequence s.clientCursor (s.wanted f start) = e :: sent ++
      beyond EventRecord.sequence s.cursor (s.wanted f start) := by
    have hall := upTo_append_beyond (c := s.clientCursor) h.ordered
    rw [h.received] at hall
    have hall' := upTo_append_beyond (c := s.cursor) h.ordered
    rw [hsplit, List.append_assoc] at hall'
    exact List.append_cancel_left (hall.trans hall'.symm)
  have hmem : e ∈ upTo EventRecord.sequence s.cursor (s.wanted f start) := by
    rw [hsplit]
    exact List.mem_append_right _ (List.mem_cons_self ..)
  refine ⟨h.numbered, h.announced_le, h.start_le.trans (lt_of_beyond hbeyond).le, ?_, h.bounded, ?_, ?_,
    h.ahead⟩
  · exact of_decide_eq_true (List.mem_filter.mp hmem).2
  · show upTo EventRecord.sequence e.sequence (s.wanted f start) = s.received ++ [e]
    rw [upTo_advance h.ordered hbeyond, h.received]
  · show upTo EventRecord.sequence s.cursor (s.wanted f start) = s.received ++ [e] ++ sent
    rw [hsplit, List.append_assoc, List.singleton_append]

/-- **Every event keeps the stream sound.** -/
theorem sound_after (h : Sound f start s) (batch : ℕ) (e : Event) :
    Sound f start (s.after f batch e) := by
  cases e with
  | commit appends =>
    rw [System.after]
    cases hstore : s.store.transaction (appends.map Append.event) with
    | none => exact h
    | some store => exact h.commit hstore
  | notify =>
    rw [System.after]
    split_ifs with hhooks
    · exact h
    · -- the notification becomes an offer, or nobody is there to be woken
      unfold System.notified
      dsimp only
      split_ifs with hsubscribed
      · exact h.goTo (h.ahead.mono rfl rfl rfl rfl fun _ => Or.inr (Or.inl (Nat.succ_pos _)))
      · refine h.goTo ?_
        unfold System.Ahead
        cases hpc : s.pc with
        | closed | starting | reading => trivial
        | replaying rows full => rw [hpc] at hsubscribed; exact absurd rfl hsubscribed
        | waiting => rw [hpc] at hsubscribed; exact absurd rfl hsubscribed
  | stray =>
    rw [System.after, System.notified]
    split_ifs
    · exact h.goTo (h.ahead.mono rfl rfl rfl rfl fun _ => Or.inr (Or.inl (Nat.succ_pos _)))
    · exact h
  | offer =>
    rw [System.after]
    split_ifs
    · exact h
    · exact h.goTo (h.ahead.mono rfl rfl rfl rfl fun _ => Or.inr (Or.inr rfl))
  | connect =>
    rw [System.after]
    cases hpc : s.pc with
    | closed =>
      refine h.disconnected.goTo ?_
      trivial
    | _ => exact h
  | subscribe =>
    rw [System.after]
    cases hpc : s.pc with
    | starting => exact h.goTo trivial
    | _ => exact h
  | read =>
    rw [System.after]
    cases hpc : s.pc with
    | reading =>
      dsimp only
      cases hrows : s.store.listAfter f s.cursor batch with
      | none => exact h.disconnected
      | some rows =>
        obtain ⟨more, heq, hmore⟩ := listAfter_some h hrows
        refine h.goTo ⟨more, heq, fun hfull hannounces => ?_⟩
        obtain ⟨e, he, -⟩ := hannounces
        rw [hmore (of_decide_eq_false hfull)] at he
        exact nomatch he
    | _ => exact h
  | next =>
    rw [System.after]
    cases hpc : s.pc with
    | replaying rows full =>
      cases rows with
      | cons e rows => exact h.yield hpc
      | nil =>
        have hahead := h.ahead
        unfold System.Ahead at hahead
        rw [hpc] at hahead
        obtain ⟨more, heq, hmore⟩ := hahead
        cases full with
        | true => exact h.goTo trivial
        | false =>
          refine h.goTo fun hannounces => hmore rfl ?_
          rw [← List.nil_append more, ← heq]
          exact hannounces
    | _ => exact h
  | take =>
    rw [System.after]
    cases hpc : s.pc with
    | waiting =>
      dsimp only
      split_ifs
      · exact h.goTo trivial
      · exact h
    | _ => exact h
  | timeout =>
    rw [System.after]
    cases hpc : s.pc with
    | waiting => exact h.goTo trivial
    | _ => exact h
  | deliver =>
    rw [System.after]
    cases hsent : s.sent with
    | nil => exact h
    | cons e sent => exact h.deliver hsent
  | disconnect => exact h.disconnected

theorem sound_run (h : Sound f start s) (batch : ℕ) (events : List Event) :
    Sound f start (s.run f batch events) := by
  induction events generalizing s with
  | nil => exact h
  | cons e events ih => exact ih (sound_after h batch e)

end Sound

/-! ## Delivery -/

/-- Nothing is on its way to the stream or to the client. -/
def System.Quiet (s : System) : Prop := s.pc = .waiting ∧ ¬ s.Owed ∧ s.sent = []

/-- The transaction goes through stores with a bus, or appends nothing. -/
def Event.Notifies : Event → Prop
  | .commit appends => ∀ a ∈ appends, a.bus = true
  | _ => True

section Delivery

variable {f : Filter} {start : ℤ} {batch : ℕ} {s : System}

/-- A quiet stream has sent what was announced. -/
theorem Sound.received_of_announced (h : Sound f start s) (hquiet : s.Quiet) {e : EventRecord}
    (he : e ∈ s.wanted f start) (hannounced : e.sequence ≤ s.announced) : e ∈ s.received := by
  obtain ⟨hwaiting, howed, hsent⟩ := hquiet
  have hahead := h.ahead
  unfold System.Ahead at hahead
  rw [hwaiting] at hahead
  have hall := upTo_append_beyond (c := s.cursor) h.ordered
  rw [h.sent, hsent, List.append_nil] at hall
  rw [← hall] at he
  rcases List.mem_append.mp he with he | he
  · exact he
  · exact absurd (hahead ⟨e, he, hannounced⟩) howed

/-- Where every transaction notifies, all that was given out was announced. -/
theorem announced_after (h : s.announced = s.store.lastSequence) {event : Event}
    (hnotifies : event.Notifies) :
    (s.after f batch event).announced = (s.after f batch event).store.lastSequence := by
  cases event with
  | commit appends =>
    rw [System.after]
    cases hstore : s.store.transaction (appends.map Append.event) with
    | none => exact h
    | some store =>
      show (if appends.any Append.bus then store.lastSequence else s.announced) = store.lastSequence
      split_ifs with hany
      · rfl
      · cases appends with
        | nil => exact Option.some.inj hstore ▸ h
        | cons a rest => exact absurd (List.any_eq_true.mpr ⟨a, List.mem_cons_self,
            hnotifies a List.mem_cons_self⟩) hany
  | notify | stray =>
    rw [System.after]
    unfold System.notified
    split_ifs <;> exact h
  | offer => rw [System.after]; split_ifs <;> exact h
  | connect | subscribe | timeout => rw [System.after]; split <;> exact h
  | read =>
    rw [System.after]
    split
    · split <;> exact h
    · exact h
  | next => rw [System.after]; split <;> exact h
  | take =>
    rw [System.after]
    split
    · split_ifs <;> exact h
    · exact h
  | deliver => rw [System.after]; split <;> exact h
  | disconnect => exact h

theorem announced_run {events : List Event} (h : s.announced = s.store.lastSequence)
    (hnotifies : ∀ event ∈ events, event.Notifies) :
    (s.run f batch events).announced = (s.run f batch events).store.lastSequence := by
  induction events generalizing s with
  | nil => exact h
  | cons event events ih =>
    obtain ⟨hevent, hrest⟩ := List.forall_mem_cons.mp hnotifies
    exact ih (announced_after h hevent) hrest

end Delivery

/-- **Every event once, in order, and no lost wake-up**: the client has a prefix of the
events it asked for; when the stream waits and nothing is on its way, it has all of them
that were there when a notification was last owed, so all of them when every transaction
notifies. -/
theorem delivery (f : Filter) (start : ℤ) (batch : ℕ) (events : List Event) :
    ((System.initial start).run f batch events).received <+:
        ((System.initial start).run f batch events).wanted f start ∧
      (((System.initial start).run f batch events).Quiet →
        (∀ e ∈ ((System.initial start).run f batch events).wanted f start,
          e.sequence ≤ ((System.initial start).run f batch events).announced →
          e ∈ ((System.initial start).run f batch events).received) ∧
        ((∀ event ∈ events, event.Notifies) →
          ((System.initial start).run f batch events).received =
            ((System.initial start).run f batch events).wanted f start)) := by
  have h := sound_run (sound_initial f start) batch events
  have hbegins : ((System.initial start).run f batch events).received <+:
      ((System.initial start).run f batch events).wanted f start := by
    rw [← h.received]
    exact upTo_prefix h.ordered _
  refine ⟨hbegins, fun hquiet => ⟨fun e he => h.received_of_announced hquiet he, fun hnotifies => ?_⟩⟩
  have hannounced : ((System.initial start).run f batch events).announced =
      ((System.initial start).run f batch events).store.lastSequence := announced_run rfl hnotifies
  obtain ⟨rest, hrest⟩ := hbegins
  -- what is left was announced too, so it is received, and nothing comes twice
  cases rest with
  | nil => rw [← hrest, List.append_nil]
  | cons e rest =>
    have hmem : e ∈ ((System.initial start).run f batch events).wanted f start :=
      hrest ▸ List.mem_append_right _ List.mem_cons_self
    have hle := h.numbered.le_last e (List.mem_filter.mp hmem).1
    have hreceived := h.received_of_announced hquiet hmem (hannounced ▸ hle)
    have hordered := h.ordered
    rw [← hrest] at hordered
    exact absurd ((List.pairwise_append.mp hordered).2.2 e hreceived e List.mem_cons_self) (lt_irrefl _)

/-! ## Completion -/

section Completion

variable {f : Filter} {start : ℤ} {batch : ℕ} {s t u : System}

/-- The stream, the network and the heartbeat: no transaction, and no lost connection. -/
def Event.own : Event → Bool
  | .connect | .subscribe | .read | .next | .timeout | .deliver => true
  | _ => false

/-- The steps of the stream lead from one state to another. -/
def Reaches (f : Filter) (batch : ℕ) (s t : System) : Prop :=
  ∃ events : List Event, (∀ e ∈ events, e.own = true) ∧ s.run f batch events = t

theorem Reaches.refl (s : System) : Reaches f batch s s := ⟨[], List.forall_mem_nil _, rfl⟩

theorem Reaches.head {e : Event} (he : e.own = true)
    (h : Reaches f batch (s.after f batch e) t) : Reaches f batch s t := by
  obtain ⟨events, hown, hrun⟩ := h
  exact ⟨e :: events, List.forall_mem_cons.mpr ⟨he, hown⟩, hrun⟩

theorem Reaches.trans (h : Reaches f batch s t) (h' : Reaches f batch t u) :
    Reaches f batch s u := by
  obtain ⟨events, hown, rfl⟩ := h
  obtain ⟨events', hown', rfl⟩ := h'
  refine ⟨events ++ events', fun e he => ?_, List.foldl_append ..⟩
  rcases List.mem_append.mp he with he | he
  · exact hown e he
  · exact hown' e he

theorem Reaches.sound (h : Reaches f batch s t) (hs : Sound f start s) : Sound f start t := by
  obtain ⟨events, -, rfl⟩ := h
  exact sound_run hs batch events

/-- What is still to be yielded. -/
def System.rest (f : Filter) (start : ℤ) (s : System) : List EventRecord :=
  beyond EventRecord.sequence s.cursor (s.wanted f start)

/-- A batch is yielded to its end. -/
theorem reaches_replayed (batch : ℕ) (h : Sound f start s) {rows more : List EventRecord} {full : Bool}
    (hpc : s.pc = .replaying rows full) (hrest : s.rest f start = rows ++ more) :
    ∃ t, Reaches f batch s t ∧ t.store = s.store ∧ t.rest f start = more ∧
      t.pc = if full then .reading else .waiting := by
  induction rows generalizing s with
  | nil =>
    refine ⟨_, Reaches.head (e := .next) rfl (Reaches.refl _), ?_⟩
    rw [System.after, hpc]
    exact ⟨rfl, hrest, rfl⟩
  | cons e rows ih =>
    have hyield := h.yield hpc
    obtain ⟨t, hreach, hstore, hrest', hpc'⟩ := ih hyield rfl (beyond_advance h.ordered hrest)
    refine ⟨t, Reaches.head (e := .next) rfl ?_, hstore, hrest', hpc'⟩
    rw [System.after, hpc]
    exact hreach

/-- From `list_after` everything is yielded, batch by batch. -/
theorem reaches_waiting (hstart : 0 ≤ start) (hbatch : 1 ≤ batch ∧ batch ≤ 1000)
    (h : Sound f start s) (hpc : s.pc = .reading) :
    ∃ t, Reaches f batch s t ∧ t.store = s.store ∧ t.rest f start = [] := by
  induction hn : (s.rest f start).length using Nat.strong_induction_on generalizing s with
  | _ n ih =>
    have hcursor : ¬ s.cursor < 0 :=
      not_lt.mpr (hstart.trans (h.start_le.trans h.cursor_le))
    obtain ⟨rows, hrows⟩ : ∃ rows, s.store.listAfter f s.cursor batch = some rows := by
      unfold EventStore.listAfter
      rw [if_neg hcursor, if_neg (not_not.mpr hbatch)]
      exact ⟨_, rfl⟩
    obtain ⟨more, heq, hmore⟩ := listAfter_some h hrows
    have hread : s.after f batch .read = { s with pc := .replaying rows (rows.length = batch) } := by
      rw [System.after, hpc]
      dsimp only
      rw [hrows]
    have hsound := sound_after h batch .read
    rw [hread] at hsound
    obtain ⟨t, hreach, hstore, hrest, hpc'⟩ := reaches_replayed batch hsound rfl heq
    have hreach' : Reaches f batch s t := Reaches.head (e := .read) rfl (by rw [hread]; exact hreach)
    by_cases hfull : rows.length = batch
    · rw [decide_eq_true hfull, if_pos rfl] at hpc'
      have hshorter : (t.rest f start).length < n := by
        rw [hrest, ← hn, System.rest, heq, List.length_append]
        omega
      obtain ⟨u, hreach'', hstore', hrest'⟩ := ih _ hshorter (hreach'.sound h) hpc' rfl
      exact ⟨u, hreach'.trans hreach'', hstore'.trans hstore, hrest'⟩
    · exact ⟨t, hreach', hstore, hrest.trans (hmore hfull)⟩

/-- A stream is, or gets, to its next `list_after`. -/
theorem reaches_reading (batch : ℕ) (h : Sound f start s) :
    ∃ t, Reaches f batch s t ∧ t.store = s.store ∧ t.pc = .reading := by
  have waiting : ∀ {t : System}, t.pc = .waiting → ∃ u, Reaches f batch t u ∧
      u.store = t.store ∧ u.pc = .reading := by
    intro t hpc
    refine ⟨_, Reaches.head (e := .timeout) rfl (Reaches.refl _), ?_⟩
    rw [System.after, hpc]
    exact ⟨rfl, rfl⟩
  have starting : ∀ {t : System}, t.pc = .starting → ∃ u, Reaches f batch t u ∧
      u.store = t.store ∧ u.pc = .reading := by
    intro t hpc
    refine ⟨_, Reaches.head (e := .subscribe) rfl (Reaches.refl _), ?_⟩
    rw [System.after, hpc]
    exact ⟨rfl, rfl⟩
  cases hpc : s.pc with
  | reading => exact ⟨s, Reaches.refl s, rfl, hpc⟩
  | waiting => exact waiting hpc
  | starting => exact starting hpc
  | closed =>
    have hconnect : s.after f batch .connect = { s.disconnected with pc := .starting } := by
      rw [System.after, hpc]
    obtain ⟨u, hreach, hstore, hreading⟩ := starting (t := s.after f batch .connect)
      (by rw [hconnect])
    refine ⟨u, Reaches.head (e := .connect) rfl hreach, ?_, hreading⟩
    rw [hstore, hconnect]
    rfl
  | replaying rows full =>
    have hahead := h.ahead
    unfold System.Ahead at hahead
    rw [hpc] at hahead
    obtain ⟨more, heq, -⟩ := hahead
    obtain ⟨t, hreach, hstore, -, hpc'⟩ := reaches_replayed batch h hpc heq
    cases full with
    | true => exact ⟨t, hreach, hstore, hpc'⟩
    | false =>
      obtain ⟨u, hreach', hstore', hreading⟩ := waiting hpc'
      exact ⟨u, hreach.trans hreach', hstore'.trans hstore, hreading⟩

/-- What is on the way arrives. -/
theorem reaches_delivered (f : Filter) (batch : ℕ) (s : System) : ∃ t, Reaches f batch s t ∧ t.store = s.store ∧
    t.cursor = s.cursor ∧ t.sent = [] := by
  induction hsent : s.sent generalizing s with
  | nil => exact ⟨s, Reaches.refl s, rfl, rfl, hsent⟩
  | cons e sent ih =>
    have hdeliver : s.after f batch .deliver =
        { s with sent, received := s.received ++ [e], clientCursor := e.sequence } := by
      rw [System.after, hsent]
    obtain ⟨t, hreach, hstore, hcursor, hnil⟩ := ih (s.after f batch .deliver) (by rw [hdeliver])
    refine ⟨t, Reaches.head (e := .deliver) rfl hreach, ?_, ?_, hnil⟩
    · rw [hstore, hdeliver]
    · rw [hcursor, hdeliver]

end Completion

/-- **Delivery completes**: from every state of every run, without another event being
committed or the connection being lost, the client can get all that it asked for, even
when no wake-up reaches the stream. -/
theorem delivery_completes {f : Filter} {start : ℤ} {batch : ℕ} (hstart : 0 ≤ start)
    (hbatch : 1 ≤ batch ∧ batch ≤ 1000) (events : List Event) :
    ∃ t, Reaches f batch ((System.initial start).run f batch events) t ∧
      t.store = ((System.initial start).run f batch events).store ∧
      t.received = t.wanted f start := by
  have h := sound_run (sound_initial f start) batch events
  obtain ⟨t, hreach, hstore, hreading⟩ := reaches_reading batch h
  obtain ⟨u, hreach', hstore', hrest⟩ := reaches_waiting hstart hbatch (hreach.sound h) hreading
  obtain ⟨v, hreach'', hstore'', hcursor, hsent⟩ := reaches_delivered f batch u
  have hall := hreach.trans (hreach'.trans hreach'')
  refine ⟨v, hall, hstore''.trans (hstore'.trans hstore), ?_⟩
  have hv := hall.sound h
  have hrest' : beyond EventRecord.sequence v.cursor (v.wanted f start) = [] := by
    rw [hcursor, System.wanted, hstore'']
    exact hrest
  have hsplit := upTo_append_beyond (c := v.cursor) hv.ordered
  rw [hrest', List.append_nil, hv.sent, hsent, List.append_nil] at hsplit
  exact hsplit

/-- One event is committed while the stream is open. -/
theorem delivery_completes_open : ∃ t, Reaches ⟨none, none, none⟩ 100
    ((System.initial 0).run ⟨none, none, none⟩ 100 [.connect, .subscribe, .read,
      .commit [⟨⟨str "evt_1", str "run.created", [], none, none, str "run_1", none, 1, .null⟩, true⟩]]) t ∧
    t.store = ((System.initial 0).run ⟨none, none, none⟩ 100 [.connect, .subscribe, .read,
      .commit [⟨⟨str "evt_1", str "run.created", [], none, none, str "run_1", none, 1, .null⟩, true⟩]]).store ∧
    t.received = t.wanted ⟨none, none, none⟩ 0 :=
  delivery_completes le_rfl (by decide) _

end AI2Apps.Events
