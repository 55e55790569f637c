import AI2Apps.Omlx.OutputCollector

/-!
# What a stream delivers

Outputs are merged when the consumer is slow, and dropped by the engine loop when the
interval is not over; in between nothing happens to them.

* `Delivered`, `delivered_run`: the collector and the consumer.
* `Ended`, `ended_run`: the last output of a stream.
-/

namespace AI2Apps.Omlx.Collector

namespace Stream

open MergeSlot (Delivers merged)

variable {streamInterval : ℤ} {s : Stream} {o : RequestOutput} {e : Event} {events : List Event}

/-- The generator has not ended. -/
def isOpen (s : Stream) : Prop := ∀ ending, s.phase ≠ .closed ending

/-- What is produced for the request. -/
def produced (events : List Event) : List RequestOutput :=
  events.filterMap fun
    | .distribute o => some o
    | .signal o => some o
    | _ => none

/-- **What the generator does when it goes on.** -/
theorem advance_cases (s : Stream) :
    (s.phase = .starting ∧ s.advance = { s with phase := .closed .missing }) ∨
    (∃ o, s.phase = .yielding o ∧ o.failed = true ∧ s.advance = s.close .failed) ∨
    (∃ o, s.phase = .yielding o ∧ o.failed = false ∧ o.finished = true ∧
      s.advance = s.close .finished) ∨
    (s.isOpen ∧ (∀ o, s.phase = .yielding o → o.final = false) ∧ s.advance = s.fetch) ∨
    ∃ ending, s.phase = .closed ending ∧ s.advance = s := by
  unfold advance isOpen
  cases hphase : s.phase with
  | starting =>
    cases htracked : s.tracked with
    | true => exact .inr (.inr (.inr (.inl ⟨by simp, by simp, rfl⟩)))
    | false => exact .inl ⟨rfl, rfl⟩
  | waiting => exact .inr (.inr (.inr (.inl ⟨by simp, by simp, rfl⟩)))
  | yielding o =>
    cases hfailed : o.failed with
    | true => exact .inr (.inl ⟨o, rfl, hfailed, by simp only [hfailed, if_true]⟩)
    | false =>
      cases hfinished : o.finished with
      | true =>
        exact .inr (.inr (.inl ⟨o, rfl, hfailed, hfinished,
          by simp only [hfailed, hfinished, Bool.false_eq_true, if_false, if_true]⟩))
      | false =>
        refine .inr (.inr (.inr (.inl ⟨by simp, fun o' ho' => ?_,
          by simp only [hfailed, hfinished, Bool.false_eq_true, if_false]⟩)))
        obtain rfl := Phase.yielding.inj ho'
        rw [RequestOutput.final, hfailed, hfinished]
        rfl
  | closed ending => exact .inr (.inr (.inr (.inr ⟨ending, rfl, rfl⟩)))

/-! ## Delivery -/

/-- What the collector was given, against what was made and what was yielded.  The close of the
engine may have cleared the slot. -/
structure Delivered (streamInterval : ℤ) (made : List RequestOutput) (s : Stream) : Prop where
  delivers : ∃ slot, Delivers mergeOutputs s.given s.yielded slot ∧
    (s.isOpen → s.engineClosed = false ∨ s.slot ≠ none → slot = s.slot)
  engine : s.tracked = true → s.engineClosed = false
  sublist : s.given.Sublist made
  initial : streamInterval = 1 → s.given <+: made
  tracked : streamInterval = 1 → s.tracked = true → s.given = made

variable {made : List RequestOutput}

theorem delivered_initial : Delivered streamInterval [] .initial where
  delivers := ⟨none, .nil, fun _ _ => rfl⟩
  engine _ := rfl
  sublist := .refl _
  initial _ := List.prefix_rfl
  tracked _ _ := rfl

/-- Marks and counters are not looked at. -/
theorem Delivered.mark (h : Delivered streamInterval made s) (sentTokens : ℤ) (finishedAt : Bool) :
    Delivered streamInterval made { s with sentTokens, finishedAt } :=
  ⟨h.delivers, h.engine, h.sublist, h.initial, h.tracked⟩

theorem Delivered.untrack (h : Delivered streamInterval made s) :
    Delivered streamInterval made { s with tracked := false } :=
  ⟨h.delivers, nofun, h.sublist, h.initial, fun _ => nofun⟩

theorem Delivered.put (h : Delivered streamInterval made s) (ht : s.tracked = true)
    (o : RequestOutput) : Delivered streamInterval (made ++ [o]) (s.put o) := by
  obtain ⟨slot, hdelivers, hslot⟩ := h.delivers
  have hgiven : streamInterval = 1 → (s.put o).given = made ++ [o] :=
    fun hone => congrArg (· ++ [o]) (h.tracked hone ht)
  refine ⟨⟨_, hdelivers.put o, fun hopen _ => ?_⟩, h.engine, h.sublist.append (.refl _), fun hone => ?_,
    fun hone _ => hgiven hone⟩
  · rw [hslot hopen (.inl (h.engine ht))]
    rfl
  · rw [hgiven hone]

/-- An output is not put. -/
theorem Delivered.skip (h : Delivered streamInterval made s)
    (ht : streamInterval = 1 → s.tracked = false) (o : RequestOutput) :
    Delivered streamInterval (made ++ [o]) s where
  delivers := h.delivers
  engine := h.engine
  sublist := h.sublist.trans (List.sublist_append_left _ _)
  initial hone := (h.initial hone).trans (List.prefix_append _ _)
  tracked hone htracked := by
    rw [ht hone] at htracked
    cases htracked

theorem Delivered.distribute (h : Delivered streamInterval made s) (o : RequestOutput) :
    Delivered streamInterval (made ++ [o]) (s.distribute streamInterval o) := by
  have hmark : ∀ {s : Stream}, Delivered streamInterval (made ++ [o]) s →
      Delivered streamInterval (made ++ [o]) (if o.finished then s.markFinished else s) := by
    intro s hs
    split_ifs
    · exact hs.mark s.sentTokens true
    · exact hs
  refine hmark ?_
  split_ifs with htracked hone hsend
  · exact h.put htracked o
  · exact (h.put htracked o).mark o.completionTokens _
  · exact h.skip (fun h => absurd h hone) o
  · exact h.skip (fun _ => Bool.eq_false_iff.mpr htracked) o

theorem Delivered.signal (h : Delivered streamInterval made s) (o : RequestOutput) :
    Delivered streamInterval (made ++ [o]) (s.signal o) := by
  unfold Stream.signal
  split_ifs with hclosed htracked
  · refine h.skip (fun _ => Bool.eq_false_iff.mpr fun ht => ?_) o
    exact absurd (h.engine ht) (by rw [hclosed]; decide)
  · exact (h.put htracked o).mark _ true
  · exact (h.skip (fun _ => Bool.eq_false_iff.mpr htracked) o).mark _ true

theorem Delivered.closeEngine (h : Delivered streamInterval made s) :
    Delivered streamInterval made s.closeEngine := by
  unfold Stream.closeEngine
  split_ifs with hclosed htracked
  · exact h
  · obtain ⟨slot, hdelivers, -⟩ := h.delivers
    refine ⟨⟨slot, hdelivers, fun _ hslot => ?_⟩, nofun, h.sublist, h.initial, fun _ => nofun⟩
    rcases hslot with hslot | hslot
    · cases hslot
    · exact absurd rfl hslot
  · obtain ⟨slot, hdelivers, hlink⟩ := h.delivers
    refine ⟨⟨slot, hdelivers, fun hopen _ => hlink hopen (.inl ?_)⟩, nofun, h.sublist, h.initial,
      fun _ => nofun⟩
    exact Bool.eq_false_iff.mpr hclosed

theorem Delivered.fetch (h : Delivered streamInterval made s) (hopen : s.isOpen) :
    Delivered streamInterval made s.fetch := by
  obtain ⟨slot, hdelivers, hslot⟩ := h.delivers
  unfold Stream.fetch
  cases hs : s.slot with
  | none =>
    refine ⟨⟨slot, hdelivers, fun _ hlink => ?_⟩, h.engine, h.sublist, h.initial, h.tracked⟩
    exact (hslot hopen (hlink.imp_right fun hne => absurd rfl hne)).trans hs
  | some o =>
    rw [hslot hopen (.inr (by rw [hs]; nofun)), hs] at hdelivers
    exact ⟨⟨none, hdelivers.take, fun _ _ => rfl⟩, h.engine, h.sublist, h.initial, h.tracked⟩

theorem Delivered.closed (h : Delivered streamInterval made s) (slot : Option RequestOutput)
    (tracked finishedAt : Bool) (ending : Ending) (ht : tracked = true → s.tracked = true) :
    Delivered streamInterval made
      { s with slot, tracked, finishedAt, phase := .closed ending } := by
  obtain ⟨slot, hdelivers, -⟩ := h.delivers
  exact ⟨⟨slot, hdelivers, fun hopen => absurd rfl (hopen ending)⟩, fun htracked => h.engine (ht htracked),
    h.sublist, h.initial, fun hone htracked => h.tracked hone (ht htracked)⟩

theorem Delivered.close (h : Delivered streamInterval made s) (ending : Ending) :
    Delivered streamInterval made (s.close ending) :=
  h.closed _ false false ending fun ht => by cases ht

theorem Delivered.advance (h : Delivered streamInterval made s) :
    Delivered streamInterval made s.advance := by
  rcases advance_cases s with ⟨-, heq⟩ | ⟨o, -, -, heq⟩ | ⟨o, -, -, -, heq⟩ | ⟨hopen, -, heq⟩ |
    ⟨-, -, heq⟩ <;> rw [heq]
  · exact h.closed s.slot s.tracked s.finishedAt .missing id
  · exact h.close .failed
  · exact h.close .finished
  · exact h.fetch hopen
  · exact h

/-- What the event makes is added to what was made. -/
theorem Delivered.after (h : Delivered streamInterval made s) (e : Event) :
    Delivered streamInterval (made ++ produced [e]) (s.after streamInterval e) := by
  cases e with
  | distribute o => exact h.distribute o
  | signal o => exact h.signal o
  | reap =>
    rw [show produced [.reap] = [] from rfl, List.append_nil, Stream.after, reap]
    split_ifs
    · exact h.untrack.mark _ false
    · exact h
  | closeEngine =>
    rw [show produced [.closeEngine] = [] from rfl, List.append_nil]
    exact h.closeEngine
  | advance =>
    rw [show produced [.advance] = [] from rfl, List.append_nil]
    exact h.advance
  | timeout =>
    rw [show produced [.timeout] = [] from rfl, List.append_nil, Stream.after, timeout]
    cases s.phase with
    | waiting => exact h.close .timedOut
    | starting | yielding _ | closed _ => exact h
  | abandon =>
    rw [show produced [.abandon] = [] from rfl, List.append_nil, Stream.after, abandon]
    cases s.phase with
    | starting => exact h.closed s.slot s.tracked s.finishedAt .abandoned id
    | waiting | yielding _ => exact h.close .abandoned
    | closed _ => exact h

theorem run_concat (s : Stream) (events : List Event) (e : Event) :
    s.run streamInterval (events ++ [e]) = (s.run streamInterval events).after streamInterval e := by
  rw [run, List.foldl_append]
  rfl

theorem delivered (streamInterval : ℤ) (events : List Event) :
    Delivered streamInterval (produced events) (Stream.initial.run streamInterval events) := by
  induction events using List.reverseRecOn with
  | nil => exact delivered_initial
  | append_singleton events e ih =>
    rw [run_concat, produced, List.filterMap_append]
    exact ih.after e

/-- **Text and tokens are delivered once and in order, whatever the consumer does.**  While
the generator and the engine are open, nothing but the grouping of the outputs has changed. -/
theorem delivered_run (streamInterval : ℤ) (events : List Event) :
    let s := Stream.initial.run streamInterval events
    s.yielded.flatMap RequestOutput.newText <+: s.given.flatMap RequestOutput.newText ∧
      s.yielded.flatMap RequestOutput.newTokenIds <+: s.given.flatMap RequestOutput.newTokenIds ∧
      (s.isOpen → s.engineClosed = false →
        merged mergeOutputs (s.yielded ++ s.slot.toList) = merged mergeOutputs s.given) ∧
      s.given.Sublist (produced events) ∧ (streamInterval = 1 → s.given <+: produced events) ∧
      (streamInterval = 1 → s.tracked = true → s.given = produced events) := by
  intro s
  have h : Delivered streamInterval (produced events) s := delivered streamInterval events
  obtain ⟨slot, hdelivers, hslot⟩ := h.delivers
  refine ⟨⟨_, hdelivers.flatMap_append fun _ _ => rfl⟩, ⟨_, hdelivers.flatMap_append fun _ _ => rfl⟩,
    fun hopen hengine => ?_, h.sublist, h.initial, h.tracked⟩
  rw [← hslot hopen (.inl hengine)]
  exact hdelivers.merged_eq mergeOutputs_assoc

/-! ## Endings -/

/-- The generator yields nothing after a last output, and ends as that one says, or before one: it
found no collector, waited too long, or was left. -/
def endsWith (yielded : List RequestOutput) : Phase → Prop
  | .starting => yielded = []
  | .waiting => ∀ o ∈ yielded, o.final = false
  | .yielding o => ∃ before, yielded = before ++ [o] ∧ ∀ o' ∈ before, o'.final = false
  | .closed .missing => yielded = []
  | .closed .timedOut => ∀ o ∈ yielded, o.final = false
  | .closed .finished => ∃ before o, yielded = before ++ [o] ∧ o.failed = false ∧
      o.finished = true ∧ ∀ o' ∈ before, o'.final = false
  | .closed .failed => ∃ before o, yielded = before ++ [o] ∧ o.failed = true ∧
      ∀ o' ∈ before, o'.final = false
  | .closed .abandoned => ∃ before last, yielded = before ++ last ∧ last.length ≤ 1 ∧
      ∀ o' ∈ before, o'.final = false

def Ended (s : Stream) : Prop := endsWith s.yielded s.phase

theorem ended_fetch (hyielded : ∀ o ∈ s.yielded, o.final = false) : s.fetch.Ended := by
  unfold fetch
  cases s.slot with
  | none => exact hyielded
  | some o => exact ⟨s.yielded, rfl, hyielded⟩

theorem Ended.advance (h : s.Ended) : s.advance.Ended := by
  unfold Ended at h
  rcases advance_cases s with ⟨hphase, heq⟩ | ⟨o, hphase, hfailed, heq⟩ |
    ⟨o, hphase, hfailed, hfinished, heq⟩ | ⟨hopen, hfinal, heq⟩ | ⟨ending, hphase, heq⟩ <;> rw [heq]
  · rw [hphase] at h
    exact h
  · rw [hphase] at h
    obtain ⟨before, hyielded, hbefore⟩ := h
    exact ⟨before, o, hyielded, hfailed, hbefore⟩
  · rw [hphase] at h
    obtain ⟨before, hyielded, hbefore⟩ := h
    exact ⟨before, o, hyielded, hfailed, hfinished, hbefore⟩
  · refine ended_fetch ?_
    cases hphase : s.phase with
    | starting =>
      rw [hphase] at h
      rw [show s.yielded = [] from h]
      exact fun _ h => absurd h List.not_mem_nil
    | waiting =>
      rw [hphase] at h
      exact h
    | yielding o =>
      rw [hphase] at h
      obtain ⟨before, hyielded, hbefore⟩ := h
      rw [hyielded]
      intro o' ho'
      rcases List.mem_append.mp ho' with ho' | ho'
      · exact hbefore o' ho'
      · obtain rfl := List.mem_singleton.mp ho'
        exact hfinal o' hphase
    | closed ending => exact absurd hphase (hopen ending)
  · exact h

theorem Ended.after (h : s.Ended) (e : Event) : (s.after streamInterval e).Ended := by
  have hkept : ∀ {s' : Stream}, s'.yielded = s.yielded → s'.phase = s.phase → s'.Ended := by
    intro s' hyielded hphase
    rw [Ended, hyielded, hphase]
    exact h
  cases e with
  | distribute o =>
    unfold Stream.after distribute
    dsimp only
    split_ifs <;> exact hkept rfl rfl
  | signal o =>
    rw [Stream.after, signal]
    split_ifs <;> exact hkept rfl rfl
  | closeEngine =>
    rw [Stream.after, closeEngine]
    split_ifs <;> exact hkept rfl rfl
  | reap =>
    rw [Stream.after, reap]
    split_ifs <;> exact hkept rfl rfl
  | advance => exact h.advance
  | timeout =>
    rw [Stream.after, timeout]
    unfold Ended at h
    cases hphase : s.phase with
    | waiting =>
      rw [hphase] at h
      exact h
    | starting | yielding _ | closed _ => exact h
  | abandon =>
    rw [Stream.after, abandon]
    unfold Ended at h
    cases hphase : s.phase with
    | starting =>
      rw [hphase] at h
      exact ⟨[], [], h, Nat.zero_le _, fun _ h => absurd h List.not_mem_nil⟩
    | waiting =>
      rw [hphase] at h
      exact ⟨s.yielded, [], (List.append_nil _).symm, Nat.zero_le _, h⟩
    | yielding o =>
      rw [hphase] at h
      obtain ⟨before, hyielded, hbefore⟩ := h
      exact ⟨before, [o], hyielded, le_rfl, hbefore⟩
    | closed _ => exact h

theorem ended (streamInterval : ℤ) (events : List Event) :
    (Stream.initial.run streamInterval events).Ended := by
  induction events using List.reverseRecOn with
  | nil => exact rfl
  | append_singleton events e ih =>
    rw [run_concat]
    exact ih.after e

end Stream

end AI2Apps.Omlx.Collector
