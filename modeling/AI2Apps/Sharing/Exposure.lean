import AI2Apps.Sharing.Limits

/-!
# What reaches the gateway for a grant

A tool that `invoke_tool` hands over is covered by an export as the call's snapshot has
it.  It is enabled, without effects, and covered by an active export of the grant, as
long as nothing is changed behind the snapshot or behind an export of the tool itself:
an export of a service is narrowed again at each use, an export of a tool is not.

* `Allowed`: a tool the grant may use now.
* `Event.Orderly`: the changes that respect what is exported.
* `handed_allowed`: in orderly runs only allowed tools are handed over.
-/

namespace AI2Apps.Sharing

/-- The export is of this tool, or of its service. -/
def CapabilityExport.Covers (e : CapabilityExport) (registry : Registry) (tool : ToolDescriptor) :
    Prop :=
  e.kind = .tool ∧ registry.getTool e.targetId = .ok tool ∨
    e.kind = .service ∧ ∃ service, registry.getService e.targetId = .ok service ∧
      tool.serviceId = service.id

/-- The tool may be used with the grant. -/
structure Allowed (s : System) (g : Str) (tool : ToolDescriptor) : Prop where
  enabled : tool.enabled = true
  effects : tool.effects = []
  requiredCapabilities : tool.requiredCapabilities = []
  capabilityRules : tool.capabilityRules = []
  covered : ∃ e ∈ s.db.exports.rows, e.status = .active ∧ (g, e.id) ∈ s.db.grantExports ∧
    e.Covers s.registry tool

/-- What the export's target resolves to is enabled and safe. -/
def Registry.Fit (registry : Registry) (e : CapabilityExport) : Prop :=
  e.kind = .tool → ∀ tool, registry.getTool e.targetId = .ok tool →
    tool.enabled = true ∧ tool.safe = true

/-- No tool is found under the id of another. -/
def Registry.Resolves (registry : Registry) : Prop :=
  ∀ t ∈ registry.tools, ∀ u ∈ registry.tools, t.id = u.qualifiedName → t = u

/-- The change respects what is exported and who is calling. -/
def Event.Orderly (s : System) : Event → Prop
  | .createExport _ kind targetId _ _ _ _ =>
    kind = .tool → ∀ tool, s.registry.getTool targetId = .ok tool → tool.enabled = true
  | .setExportStatus exportId status =>
    match ExportStatus.ofText? status with
    | some .active => ∀ e ∈ s.db.exports.rows, e.id = exportId → e.status ≠ .revoked →
      s.registry.Fit e
    | some _ => ∀ c ∈ s.calls, c.phase.mayInvoke = true → ∀ e ∈ c.grant.exports,
      e.status = .active → e.id ≠ exportId
    | none => True
  | .updateRegistry registry =>
    registry.Resolves ∧ ∀ e ∈ s.db.exports.rows, e.status = .active → registry.Fit e
  | _ => True

/-- Every event of the run is orderly where it happens. -/
def OrderlyRun (digest : Str → Str) (s : System) : List Event → Prop
  | [] => True
  | e :: events => e.Orderly s ∧ OrderlyRun digest (s.after digest e) events

/-! ## The registry -/

section Registry

variable {registry : Registry} {tool : ToolDescriptor} {name : Str}

theorem mem_of_getTool (h : registry.getTool name = .ok tool) : tool ∈ registry.tools := by
  unfold Registry.getTool at h
  split at h
  · rename_i t ht
    rw [← Except.ok.inj h]
    exact List.mem_of_find?_eq_some ht
  · cases h

/-- A tool is found under its own name. -/
theorem getTool_of_name (hresolves : registry.Resolves) (hmem : tool ∈ registry.tools) :
    registry.getTool tool.qualifiedName = .ok tool := by
  unfold Registry.getTool
  cases hfind : registry.tools.find? fun t =>
      t.id = tool.qualifiedName || t.qualifiedName = tool.qualifiedName with
  | none =>
    have hno := List.find?_eq_none.mp hfind tool hmem
    simp at hno
  | some t =>
    have ht := List.mem_of_find?_eq_some hfind
    have heq : t = tool := by
      have hfound := List.find?_some hfind
      rcases Bool.or_eq_true_iff.mp hfound with hid | hname
      · exact hresolves t ht tool hmem (of_decide_eq_true hid)
      · exact List.inj_on_of_nodup_map registry.toolNames ht hmem (of_decide_eq_true hname)
    rw [heq]

/-- A service export covers enabled, safe tools of its service. -/
theorem mem_safeMethods {service : ServiceDescriptor} (h : tool ∈ registry.safeMethods service) :
    tool ∈ registry.tools ∧ tool.serviceId = service.id ∧ tool.enabled = true ∧
      tool.safe = true := by
  obtain ⟨hlist, hall⟩ := List.mem_filter.mp h
  rw [Bool.and_eq_true, Bool.and_eq_true, decide_eq_true_eq] at hall
  rw [Registry.listTools, List.mem_insertionSort] at hlist
  exact ⟨(List.mem_filter.mp hlist).1, hall.1.1, hall.1.2, hall.2⟩

theorem safe_iff : tool.safe = true ↔
    tool.effects = [] ∧ tool.requiredCapabilities = [] ∧ tool.capabilityRules = [] := by
  rw [ToolDescriptor.safe, Bool.and_eq_true, Bool.and_eq_true, List.isEmpty_iff, List.isEmpty_iff,
    List.isEmpty_iff, and_assoc]

/-- What `tools_for_export` gives is covered by the export. -/
theorem covers_of_mem_toolsForExport {e : CapabilityExport} {items : List ToolDescriptor}
    (h : toolsForExport registry e = .ok items) (hmem : tool ∈ items) :
    tool ∈ registry.tools ∧ e.Covers registry tool ∧
      (e.kind ≠ .tool → tool.enabled = true ∧ tool.safe = true) := by
  unfold toolsForExport at h
  dsimp only [bind, Except.bind, pure, Except.pure] at h
  split at h
  · rename_i hkind
    cases htool : registry.getTool e.targetId with
    | error x =>
      rw [htool] at h
      cases h
    | ok t =>
      rw [htool] at h
      obtain rfl := Except.ok.inj h
      obtain rfl := List.mem_singleton.mp hmem
      exact ⟨mem_of_getTool htool, Or.inl ⟨hkind, htool⟩, fun hne => absurd hkind hne⟩
  · rename_i hkind
    cases hservice : registry.getService e.targetId with
    | error x =>
      rw [hservice] at h
      cases h
    | ok service =>
      rw [hservice] at h
      obtain rfl := Except.ok.inj h
      obtain ⟨hin, hid, henabled, hsafe⟩ := mem_safeMethods hmem
      exact ⟨hin, Or.inr ⟨hkind, service, hservice, hid⟩, fun _ => ⟨henabled, hsafe⟩⟩
  · obtain rfl := Except.ok.inj h
    cases hmem

/-- The export that is found is an active one of the grant, with a tool of the name. -/
theorem findToolExport_ok {exports : List CapabilityExport} {e : CapabilityExport}
    (h : findToolExport registry name exports = .ok e) :
    e ∈ exports ∧ e.status = .active ∧ ∃ items item, toolsForExport registry e = .ok items ∧
      item ∈ items ∧ item.qualifiedName = name := by
  induction exports with
  | nil => cases h
  | cons e' rest ih =>
    unfold findToolExport at h
    split_ifs at h with hskip
    · obtain ⟨hmem, hrest⟩ := ih h
      exact ⟨List.mem_cons_of_mem _ hmem, hrest⟩
    · rw [not_or, not_not] at hskip
      dsimp only [bind, Except.bind, pure, Except.pure] at h
      cases hitems : toolsForExport registry e' with
      | error x =>
        rw [hitems] at h
        cases h
      | ok items =>
        rw [hitems] at h
        dsimp only at h
        split_ifs at h with hany
        · obtain rfl := Except.ok.inj h
          obtain ⟨item, hitem, hname⟩ := List.any_eq_true.mp hany
          exact ⟨List.mem_cons_self .., hskip.1, items, item, hitems, hitem,
            of_decide_eq_true hname⟩
        · obtain ⟨hmem, hrest⟩ := ih h
          exact ⟨List.mem_cons_of_mem _ hmem, hrest⟩

theorem invokeTool_ok {grant : ShareGrant} (h : invokeTool registry grant name = .ok tool) :
    (∃ e, findToolExport registry name grant.exports = .ok e) ∧
      registry.getTool name = .ok tool := by
  unfold invokeTool at h
  dsimp only [bind, Except.bind, throw, throwThe, MonadExceptOf.throw] at h
  cases hfind : findToolExport registry name grant.exports with
  | error x =>
    rw [hfind] at h
    cases h
  | ok e =>
    rw [hfind] at h
    dsimp only at h
    split_ifs at h
    exact ⟨⟨e, rfl⟩, h⟩

end Registry

/-! ## Orderly runs -/

/-- What orderly events keep: exported tools are fit, and the snapshots of calls that may
still invoke a tool are true of their active exports. -/
structure Sound (s : System) : Prop where
  resolves : s.registry.Resolves
  fit : ∀ e ∈ s.db.exports.rows, e.status = .active → s.registry.Fit e
  held : ∀ c ∈ s.calls, c.phase.mayInvoke = true → ∀ e ∈ c.grant.exports, e.status = .active →
    e ∈ s.db.exports.rows ∧ (c.grant.id, e.id) ∈ s.db.grantExports

section Sound

variable {digest : Str → Str} {s s' : System} {i : ℕ} {c : Call} {phase : Phase}

theorem sound_initial : Sound .initial where
  resolves _ h := by cases h
  fit _ h := by cases h
  held _ h := by cases h

/-- Soundness is about the registry, the exports and the calls. -/
theorem Sound.congr (h : Sound s) (hregistry : s'.registry = s.registry)
    (hexports : s'.db.exports = s.db.exports) (hgrants : s'.db.grantExports = s.db.grantExports)
    (hcalls : s'.calls = s.calls) : Sound s' where
  resolves := by
    rw [hregistry]
    exact h.resolves
  fit := by
    rw [hregistry, hexports]
    exact h.fit
  held := by
    rw [hexports, hgrants, hcalls]
    exact h.held

/-- A call that goes on from where it may invoke a tool. -/
theorem Sound.move (h : Sound s) (hc : s.calls[i]? = some c)
    (hinvoke : phase.mayInvoke = true → c.phase.mayInvoke = true) : Sound (s.move i c phase) where
  resolves := h.resolves
  fit := h.fit
  held c' hc' hmay := by
    rcases List.mem_or_eq_of_mem_set hc' with hmem | rfl
    · exact h.held c' hmem hmay
    · exact h.held c (List.mem_of_getElem? hc) (hinvoke hmay)

/-- A new export of a tool is of a safe one, and of an enabled one when it is orderly. -/
theorem fit_of_validateExport {bindings : Bindings} {registry : Registry} {e : CapabilityExport}
    {protocols : List Str} (h : validateExport bindings registry e.targetId e.kind = .ok protocols)
    (henabled : e.kind = .tool → ∀ tool, registry.getTool e.targetId = .ok tool →
      tool.enabled = true) : registry.Fit e := by
  intro hkind tool htool
  refine ⟨henabled hkind tool htool, ?_⟩
  rw [hkind, validateExport, htool] at h
  dsimp only at h
  split_ifs at h with hsafe
  exact hsafe

/-- A change of status that is orderly. -/
theorem Sound.setStatus (h : Sound s) {exportId status : Str} {st : ExportStatus}
    (hst : ExportStatus.ofText? status = some st)
    (horderly : (Event.setExportStatus exportId status).Orderly s) :
    Sound { s with db := { s.db with
      exports := s.db.exports.update (fun e => e.id = exportId && e.status ≠ .revoked)
        (fun e => { e with status := st }) fun _ => rfl } } := by
  rw [Event.Orderly, hst] at horderly
  refine ⟨h.resolves, fun e he hactive => ?_, fun c hc hmay e he hactive => ?_⟩
  · obtain ⟨e₀, he₀, rfl⟩ := List.mem_map.mp he
    by_cases hselect : (decide (e₀.id = exportId) && decide (e₀.status ≠ .revoked)) = true
    · rw [if_pos hselect] at hactive ⊢
      obtain rfl : st = .active := hactive
      rw [Bool.and_eq_true, decide_eq_true_eq, decide_eq_true_eq] at hselect
      exact horderly e₀ he₀ hselect.1 hselect.2
    · rw [if_neg hselect] at hactive ⊢
      exact h.fit e₀ he₀ hactive
  · obtain ⟨hmem, hgrant⟩ := h.held c hc hmay e he hactive
    refine ⟨List.mem_map.mpr ⟨e, hmem, ?_⟩, hgrant⟩
    split_ifs with hselect
    · -- an active export is only written again as active
      rw [Bool.and_eq_true, decide_eq_true_eq] at hselect
      cases st with
      | active => rw [← hactive]
      | paused => exact absurd hselect.1 (horderly c hc hmay e he hactive)
      | revoked => exact absurd hselect.1 (horderly c hc hmay e he hactive)
    · rfl

/-- **Orderly events keep the system sound.** -/
theorem sound_after (h : Sound s) (e : Event) (horderly : e.Orderly s) :
    Sound (s.after digest e) := by
  cases e with
  | createExport bindings kind targetId displayName createdByUserId exportId now =>
    refine withDb_ind h fun db hdb => ?_
    obtain ⟨protocols, exports, hvalid, hinsert, rfl⟩ := createExport_ok hdb
    have hrows : exports.rows = s.db.exports.rows ++ [_] := (Table.rows_insert hinsert).1
    refine ⟨h.resolves, fun e he hactive => ?_, fun c hc hmay e he hactive => ?_⟩
    · have he' : e ∈ exports.rows := he
      rw [hrows] at he'
      rcases List.mem_append.mp he' with hmem | hmem
      · exact h.fit e hmem hactive
      · obtain rfl := List.mem_singleton.mp hmem
        exact fit_of_validateExport hvalid horderly
    · obtain ⟨hmem, hgrant⟩ := h.held c hc hmay e he hactive
      refine ⟨?_, hgrant⟩
      show e ∈ exports.rows
      rw [hrows]
      exact List.mem_append_left _ hmem
  | setExportStatus exportId status =>
    refine withDb_ind h fun db hdb => ?_
    obtain ⟨st, hst, rfl⟩ := setExportStatus_ok hdb
    exact h.setStatus hst horderly
  | createGrant label exportIds maxConcurrency expires createdBy maxRequests token grantId now =>
    refine withDb_ind h fun db hdb => ?_
    obtain ⟨row, -, -, -, -, hexports, more, hmore⟩ := createGrant_ok hdb
    refine ⟨h.resolves, ?_, fun c hc hmay e he hactive => ?_⟩
    · show ∀ e ∈ db.exports.rows, _
      rw [hexports]
      exact h.fit
    · obtain ⟨hmem, hgrant⟩ := h.held c hc hmay e he hactive
      show e ∈ db.exports.rows ∧ _ ∈ db.grantExports
      rw [hexports, hmore]
      exact ⟨hmem, List.mem_append_left _ hgrant⟩
  | rotateGrant grantId token =>
    refine withDb_ind h fun db hdb => ?_
    rw [rotateGrant_ok hdb]
    exact h.congr rfl rfl rfl rfl
  | revokeGrant grantId =>
    refine withDb_ind h fun db hdb => ?_
    rw [revokeGrant_ok hdb]
    exact h.congr rfl rfl rfl rfl
  | updateRegistry registry => exact ⟨horderly.1, horderly.2, h.held⟩
  | authenticate grantId token now =>
    unfold System.after
    dsimp only
    cases hauth : Sharing.authenticate digest s.db grantId token now with
    | error x => exact h
    | ok grant =>
      obtain ⟨row, -, rfl⟩ := authenticate_ok hauth
      refine ⟨h.resolves, h.fit, fun c hc hmay e he hactive => ?_⟩
      rcases List.mem_append.mp hc with hmem | hmem
      · exact h.held c hmem hmay e he hactive
      · -- the snapshot is what the tables have now
        obtain rfl := List.mem_singleton.mp hmem
        have hin : e ∈ s.db.exports.rows.filter fun e => (row.id, e.id) ∈ s.db.grantExports :=
          (List.mem_insertionSort _).mp he
        obtain ⟨hrow, hgrant⟩ := List.mem_filter.mp hin
        exact ⟨hrow, of_decide_eq_true hgrant⟩
  | enter i =>
    rw [System.after]
    refine atCall_ind h fun c hc hdue => ?_
    have hphase : c.phase = .entering := of_decide_eq_true hdue
    unfold enter
    split_ifs
    · exact h.move hc fun hdone => absurd hdone Bool.false_ne_true
    · exact Sound.congr (s := s.move i c .counted) (h.move hc fun _ => by rw [hphase]; rfl)
        rfl rfl rfl rfl
  | admitCall i =>
    rw [System.after]
    refine atCall_ind h fun c hc hdue => ?_
    have hphase : c.phase = .counted := of_decide_eq_true hdue
    unfold admitCall
    split_ifs
    · exact Sound.congr (s := s.move i c .admitted) (h.move hc fun _ => by rw [hphase]; rfl)
        rfl rfl rfl rfl
    · exact h.move hc fun _ => by rw [hphase]; rfl
  | invoke i qualifiedName =>
    rw [System.after]
    refine atCall_ind h fun c hc _ => ?_
    unfold invoke
    split
    · exact h.move hc fun hno => absurd hno Bool.false_ne_true
    · exact h.move hc fun hno => absurd hno Bool.false_ne_true
  | settle i =>
    rw [System.after]
    exact atCall_ind h fun c hc _ => h.move hc fun hno => absurd hno Bool.false_ne_true
  | release i =>
    rw [System.after]
    refine atCall_ind h fun c hc _ => ?_
    unfold release
    dsimp only
    split_ifs
    · exact Sound.congr (s := s.move i c .done)
        (h.move hc fun hno => absurd hno Bool.false_ne_true) rfl rfl rfl rfl
    · exact Sound.congr (s := s.move i c .done)
        (h.move hc fun hno => absurd hno Bool.false_ne_true) rfl rfl rfl rfl
  | cancel i =>
    rw [System.after]
    refine atCall_ind h fun c hc _ => ?_
    unfold cancel
    split
    · exact h.move hc fun hno => absurd hno Bool.false_ne_true
    · exact h.move hc fun hno => absurd hno Bool.false_ne_true
    · exact h.move hc fun hno => absurd hno Bool.false_ne_true

theorem sound_run (h : Sound s) {events : List Event} (horderly : OrderlyRun digest s events) :
    Sound (s.run digest events) := by
  induction events generalizing s with
  | nil => exact h
  | cons e events ih => exact ih (sound_after h e horderly.1) horderly.2

/-- A tool that is handed over in a sound state is allowed. -/
theorem allowed_of_handed (h : Sound s) {e : Event} {g : Str} {tool : ToolDescriptor}
    (hhanded : s.handed e = some (g, tool)) : Allowed s g tool := by
  cases e with
  | invoke i name =>
    rw [System.handed] at hhanded
    split at hhanded
    · rename_i c hc
      split_ifs at hhanded with hphase
      split at hhanded
      · rename_i t ht
        obtain ⟨rfl, rfl⟩ := Prod.mk.inj (Option.some.inj hhanded)
        obtain ⟨⟨found, hfound⟩, hget⟩ := invokeTool_ok ht
        obtain ⟨hmem, hactive, items, item, hitems, hitem, rfl⟩ := findToolExport_ok hfound
        obtain ⟨hin, hcovers, hservice⟩ := covers_of_mem_toolsForExport hitems hitem
        obtain rfl : item = t :=
          Except.ok.inj ((getTool_of_name h.resolves hin).symm.trans hget)
        obtain ⟨hrow, hgrant⟩ := h.held c (List.mem_of_getElem? hc) (by rw [hphase]; rfl)
          found hmem hactive
        have hboth : item.enabled = true ∧ item.safe = true := by
          by_cases hkind : found.kind = .tool
          · rcases hcovers with ⟨-, htool⟩ | ⟨hother, -⟩
            · exact h.fit found hrow hactive hkind item htool
            · rw [hkind] at hother
              cases hother
          · exact hservice hkind
        obtain ⟨heffects, hcapabilities, hrules⟩ := safe_iff.mp hboth.2
        exact ⟨hboth.1, heffects, hcapabilities, hrules, found, hrow, hactive, hgrant, hcovers⟩
      · cases hhanded
    · cases hhanded
  | _ => cases hhanded

end Sound

/-- **In an orderly run only allowed tools reach the gateway.** -/
theorem handed_allowed (digest : Str → Str) (events : List Event)
    (horderly : OrderlyRun digest .initial events) (e : Event) (g : Str) (tool : ToolDescriptor)
    (hhanded : (System.initial.run digest events).handed e = some (g, tool)) :
    Allowed (System.initial.run digest events) g tool :=
  allowed_of_handed (sound_run sound_initial horderly) hhanded

namespace Sample

theorem getTool_echo : registry.getTool (str "system.echo") = .ok echo := by
  exact id rfl

theorem shared_orderly : OrderlyRun id .initial shared := by
  refine ⟨⟨fun t ht u hu _ => ?_, fun e he => ?_⟩, fun _ tool htool => ?_, trivial, trivial, trivial,
    trivial, trivial⟩
  · obtain rfl := List.mem_singleton.mp ht
    obtain rfl := List.mem_singleton.mp hu
    rfl
  · cases he
  · obtain rfl : echo = tool := Except.ok.inj (getTool_echo.symm.trans htool)
    rfl

end Sample

/-- The shared tool is handed over, and allowed. -/
theorem handed_allowed_echo :
    Allowed (System.initial.run id Sample.shared) (str "shr") Sample.echo :=
  handed_allowed id Sample.shared Sample.shared_orderly (.invoke 0 (str "system.echo")) (str "shr")
    Sample.echo (by exact id rfl)

end AI2Apps.Sharing
