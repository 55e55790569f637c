import AI2Apps.Lib.JsonRoundTrip
import Mathlib.Data.List.Infix
import Mathlib.Data.List.Perm.Subperm

/-!
# Risk classes and action previews

`capabilities/risk.py`: what an approval shows of a tool call.  Values are
shortened and masked for display (`sanitizeValue`), and the values of the
resource keys, so treated, become the selector that a reusable consent is bound
to.  The one-line summary of a preview is left out: only people read it.

* `sanitize`: a value as it is shown.
* `resourceSelector`, `actionPreview`.
* `Whole`: the values that are shown as they are (`pyEq_sanitize_iff`).
-/

namespace AI2Apps.Capabilities

def sensitiveFragments : List Str := [
  str "password", str "passwd", str "secret", str "token", str "api_key", str "apikey",
  str "authorization", str "cookie", str "credential", str "private_key"]

def resourceKeys : List Str := [
  str "path", str "url", str "target", str "selector", str "name", str "id", str "destination",
  str "repository", str "branch", str "recipient", str "channel"]

/-- `str.lower`, as far as a search for ASCII words can tell: two letters outside ASCII
have an ASCII letter in their lower case, every other stays outside. -/
def lower (s : Str) : Str :=
  s.flatMap fun c =>
    if 65 ≤ c && c ≤ 90 then [c + 32]
    else if c = 0x130 then [105, 0x307]
    else if c = 0x212A then [107]
    else [c]

def isSensitiveKey (key : Str) : Bool :=
  let normalized := (lower key).map fun c => if c = 45 then 95 else c
  sensitiveFragments.any fun fragment => fragment <:+: normalized

/-! ## Values as they are shown -/

/-- A text as it is shown: cut after 237 characters, unless it names a secret. -/
def shorten (s : Str) : Str :=
  if s.take 9 = str "secret://" then s
  else if s.length ≤ 240 then s
  else s.take 237 ++ str "..."

def masked : Json := .str (str "[secret]")

mutual

/-- `sanitize_value(value)`. -/
def sanitize : Json → Json
  | .obj members => .obj (sanitizeMembers 40 members)
  | .arr items => .arr (sanitizeItems 40 items)
  | .str s => .str (shorten s)
  | .null => .null
  | .bool b => .bool b
  | .int i => .int i
  | .float f => .float f

/-- The first items of a list. -/
def sanitizeItems : ℕ → List Json → List Json
  | n + 1, v :: items => sanitize v :: sanitizeItems n items
  | _, _ => []

/-- The first members of an object; the value under a sensitive key is masked. -/
def sanitizeMembers : ℕ → List (Str × Json) → List (Str × Json)
  | n + 1, (k, v) :: members =>
    (k, if k ≠ [] && isSensitiveKey k then masked else sanitize v) :: sanitizeMembers n members
  | _, _ => []

end

/-- `sanitize_value(value, key=key)`. -/
def sanitizeValue (value : Json) (key : Str) : Json :=
  if key ≠ [] && isSensitiveKey key then masked else sanitize value

/-! ## Previews -/

/-- Some effect is one of the named ones, in any case. -/
def anyEffect (effects : List Str) (names : List String) : Bool :=
  effects.any fun effect => names.any fun name => lower effect = str name

inductive OperationClass where
  | destructive
  | external
  | write
  | read
  deriving DecidableEq

def operationClass (effects : List Str) : OperationClass :=
  if anyEffect effects ["destructive", "delete", "purchase", "payment"] then .destructive
  else if anyEffect effects ["external", "network", "export", "upload", "send", "publish"] then
    .external
  else if anyEffect effects ["write", "write-host", "execute", "process", "clipboard",
      "host-control", "privileged", "credential"] then .write
  else .read

def OperationClass.value : OperationClass → Str
  | .destructive => str "destructive"
  | .external => str "external"
  | .write => str "write"
  | .read => str "read"

def riskLevel (effects : List Str) : Str :=
  let category := operationClass effects
  if category = .destructive || anyEffect effects ["privileged", "credential"] then str "critical"
  else if anyEffect effects ["network", "send", "publish", "execute", "process", "host-control"] then
    str "high"
  else if category = .write || category = .external then str "medium"
  else str "low"

/-- The shown values of the resource keys that are there. -/
def selectedArguments (arguments : Json.Object) : Json.Object :=
  resourceKeys.filterMap fun key =>
    if isSensitiveKey key then none
    else (Json.lookup key arguments).map fun value => (key, sanitizeValue value key)

/-- Bind reusable consent to the concrete resources shown to the user. -/
def resourceSelector (arguments : Json.Object) : Json.Object :=
  let selected := selectedArguments arguments
  if selected = [] then [] else [(str "arguments", .obj selected)]

structure ActionPreview where
  toolName : Str
  operationClass : OperationClass
  riskLevel : Str
  reversible : Bool
  arguments : Json
  resourceSelector : Json.Object

def actionPreview (toolName : Str) (effects : List Str) (arguments : Json.Object) :
    ActionPreview where
  toolName := toolName
  operationClass := operationClass effects
  riskLevel := riskLevel effects
  reversible := operationClass effects ≠ .destructive && operationClass effects ≠ .external
  arguments := sanitize (.obj arguments)
  resourceSelector := resourceSelector arguments

/-- The preview as the approval records it. -/
def ActionPreview.object (preview : ActionPreview) : Json.Object := [
  (str "tool_name", .str preview.toolName),
  (str "operation_class", .str preview.operationClass.value),
  (str "risk_level", .str preview.riskLevel),
  (str "reversible", .bool preview.reversible),
  (str "arguments", preview.arguments),
  (str "resource_selector", .obj preview.resourceSelector)]

/-! ## What is shown as it is -/

mutual

/-- No object in the value has a key twice: what a decoder leaves. -/
def Distinct : Json → Prop
  | .obj members => DistinctMembers members
  | .arr items => DistinctItems items
  | _ => True

def DistinctItems : List Json → Prop
  | [] => True
  | v :: items => Distinct v ∧ DistinctItems items

def DistinctMembers : List (Str × Json) → Prop
  | [] => True
  | (k, v) :: members => k ∉ Json.keys members ∧ Distinct v ∧ DistinctMembers members

end

mutual

/-- Nothing in the value is shortened or masked for display, and it equals itself:
there is no not-a-number in it. -/
def Whole : Json → Prop
  | .obj members => members.length ≤ 40 ∧ WholeMembers members
  | .arr items => items.length ≤ 40 ∧ WholeItems items
  | .str s => s.take 9 = str "secret://" ∨ s.length ≤ 240
  | .float f => f ≠ .nan
  | .null => True
  | .bool _ => True
  | .int _ => True

def WholeItems : List Json → Prop
  | [] => True
  | v :: items => Whole v ∧ WholeItems items

def WholeMembers : List (Str × Json) → Prop
  | [] => True
  | (k, v) :: members =>
    (if k ≠ [] ∧ isSensitiveKey k = true then v = masked else Whole v) ∧ WholeMembers members

end

theorem sanitizeMembers_eq : ∀ {n : ℕ} {members : List (Str × Json)}, members.length ≤ n →
    sanitizeMembers n members = members.map fun p => (p.1, sanitizeValue p.2 p.1)
  | 0, [], _ => by simp [sanitizeMembers]
  | n + 1, [], _ => by simp [sanitizeMembers]
  | n + 1, (k, v) :: members, h => by
    rw [sanitizeMembers, sanitizeMembers_eq (by simpa using h), List.map_cons]
    rfl

theorem length_sanitizeMembers : ∀ (n : ℕ) (members : List (Str × Json)),
    (sanitizeMembers n members).length = min n members.length
  | 0, members => by cases members <;> simp [sanitizeMembers]
  | n + 1, [] => by simp [sanitizeMembers]
  | n + 1, (k, v) :: members => by
    rw [sanitizeMembers, List.length_cons, length_sanitizeMembers n members, List.length_cons]
    omega

theorem keys_nodup_of_distinct : ∀ {members : List (Str × Json)}, DistinctMembers members →
    (Json.keys members).Nodup
  | [], _ => List.nodup_nil
  | (k, v) :: members, h => by
    rw [DistinctMembers] at h
    exact List.nodup_cons.mpr ⟨h.1, keys_nodup_of_distinct h.2.2⟩

theorem distinctMembers_iff : ∀ {members : List (Str × Json)}, DistinctMembers members ↔
    (Json.keys members).Nodup ∧ ∀ p ∈ members, Distinct p.2
  | [] => by simp [DistinctMembers, Json.keys]
  | (k, v) :: members => by
    have hkeys : Json.keys ((k, v) :: members) = k :: Json.keys members := rfl
    rw [DistinctMembers, distinctMembers_iff, hkeys, List.nodup_cons, List.forall_mem_cons]
    exact ⟨fun h => ⟨⟨h.1, h.2.2.1⟩, h.2.1, h.2.2.2⟩, fun h => ⟨h.1.1, h.2.1, h.1.2, h.2.2⟩⟩

/-- What is found in an object as it is shown. -/
theorem lookup_sanitizeMembers {n : ℕ} {members : List (Str × Json)} (hdistinct : DistinctMembers members)
    (hn : members.length ≤ n) {p : Str × Json} (hp : p ∈ members) :
    Json.lookup p.1 (sanitizeMembers n members) = some (sanitizeValue p.2 p.1) := by
  have hkeys : Json.keys (members.map fun p => (p.1, sanitizeValue p.2 p.1)) = Json.keys members := by
    rw [Json.keys, List.map_map]
    rfl
  rw [sanitizeMembers_eq hn]
  refine Json.lookup_of_mem ?_ (List.mem_map.mpr ⟨p, hp, rfl⟩)
  rw [hkeys]
  exact keys_nodup_of_distinct hdistinct

theorem sanitizeValue_of_whole {k : Str} {v : Json} (h : Whole v → sanitize v = v)
    (hv : if k ≠ [] ∧ isSensitiveKey k = true then v = masked else Whole v) :
    sanitizeValue v k = v := by
  unfold sanitizeValue
  by_cases hk : k ≠ [] ∧ isSensitiveKey k = true
  · rw [if_pos hk] at hv
    rw [if_pos (by simpa using hk), hv]
  · rw [if_neg hk] at hv
    rw [if_neg (by simpa using hk), h hv]

mutual

/-- A whole value is shown as it is. -/
theorem sanitize_of_whole : ∀ {v : Json}, Whole v → sanitize v = v
  | .null, _ => by rw [sanitize]
  | .bool b, _ => by rw [sanitize]
  | .int i, _ => by rw [sanitize]
  | .float f, _ => by rw [sanitize]
  | .str s, h => by
    rw [Whole] at h
    rw [sanitize, shorten]
    rcases h with h | h
    · rw [if_pos h]
    · rw [if_pos h, ite_self]
  | .arr items, h => by
    rw [Whole] at h
    rw [sanitize, sanitizeItems_of_whole h.1 h.2]
  | .obj members, h => by
    rw [Whole] at h
    rw [sanitize, sanitizeMembers_of_whole h.1 h.2]

theorem sanitizeItems_of_whole : ∀ {n : ℕ} {items : List Json}, items.length ≤ n →
    WholeItems items → sanitizeItems n items = items
  | 0, [], _, _ => by simp [sanitizeItems]
  | n + 1, [], _, _ => by simp [sanitizeItems]
  | n + 1, v :: items, hn, h => by
    rw [WholeItems] at h
    rw [sanitizeItems, sanitize_of_whole h.1, sanitizeItems_of_whole (by simpa using hn) h.2]

theorem sanitizeMembers_of_whole : ∀ {n : ℕ} {members : List (Str × Json)}, members.length ≤ n →
    WholeMembers members → sanitizeMembers n members = members
  | 0, [], _, _ => by simp [sanitizeMembers]
  | n + 1, [], _, _ => by simp [sanitizeMembers]
  | n + 1, (k, v) :: members, hn, h => by
    rw [WholeMembers] at h
    rw [sanitizeMembers, sanitizeMembers_of_whole (by simpa using hn) h.2]
    have hv := sanitizeValue_of_whole sanitize_of_whole h.1
    rw [sanitizeValue] at hv
    rw [hv]

end

mutual

/-- A whole value equals itself. -/
theorem pyEq_self_of_whole : ∀ {v : Json}, Distinct v → Whole v → Json.pyEq v v = true
  | .null, _, _ => rfl
  | .bool b, _, _ => by simp [Json.pyEq]
  | .int i, _, _ => by simp [Json.pyEq]
  | .float f, _, h => by
    rw [Whole] at h
    cases f with
    | nan => exact absurd rfl h
    | finite q => simp [Json.pyEq]
    | posInf => simp [Json.pyEq]
    | negInf => simp [Json.pyEq]
  | .str s, _, _ => by simp [Json.pyEq]
  | .arr items, hd, h => by
    rw [Distinct] at hd
    rw [Whole] at h
    rw [Json.pyEq, pyEqList_self_of_whole hd h.2]
  | .obj members, hd, h => by
    rw [Distinct] at hd
    rw [Whole] at h
    rw [Json.pyEq, beq_self_eq_true, Bool.true_and]
    exact pyEqObj_self_of_whole hd h.2 fun p hp => Json.lookup_of_mem (keys_nodup_of_distinct hd) hp

theorem pyEqList_self_of_whole : ∀ {items : List Json}, DistinctItems items → WholeItems items →
    Json.pyEqList items items = true
  | [], _, _ => rfl
  | v :: items, hd, h => by
    rw [DistinctItems] at hd
    rw [WholeItems] at h
    rw [Json.pyEqList, pyEq_self_of_whole hd.1 h.1, pyEqList_self_of_whole hd.2 h.2, Bool.and_self]

theorem pyEqObj_self_of_whole : ∀ {members : List (Str × Json)} {o : Json.Object},
    DistinctMembers members → WholeMembers members →
    (∀ p ∈ members, Json.lookup p.1 o = some p.2) → Json.pyEqObj members o = true
  | [], o, _, _, _ => rfl
  | (k, v) :: members, o, hd, h, hlookup => by
    rw [DistinctMembers] at hd
    rw [WholeMembers] at h
    rw [List.forall_mem_cons] at hlookup
    have hv : Json.pyEq v v = true := by
      by_cases hk : k ≠ [] ∧ isSensitiveKey k = true
      · rw [if_pos hk] at h
        rw [h.1, masked]
        simp [Json.pyEq]
      · rw [if_neg hk] at h
        exact pyEq_self_of_whole hd.2.1 h.1
    rw [Json.pyEqObj, hlookup.1, pyEqObj_self_of_whole hd.2.2 h.2 hlookup.2, Bool.and_true]
    exact hv

end

/-- The value itself, or one that equals it. -/
def Agrees (w v : Json) : Prop := w = v ∨ Json.pyEq w v = true

theorem pyEqObj_iff : ∀ {xs : List (Str × Json)} {ys : Json.Object}, Json.pyEqObj xs ys = true ↔
    ∀ p ∈ xs, ∃ w, Json.lookup p.1 ys = some w ∧ Json.pyEq p.2 w = true
  | [], ys => by simp [Json.pyEqObj]
  | (k, v) :: xs, ys => by
    rw [Json.pyEqObj, Bool.and_eq_true, List.forall_mem_cons, pyEqObj_iff]
    refine and_congr_left fun _ => ?_
    cases Json.lookup k ys <;> simp

theorem eq_str_of_agrees {w : Json} {s t : Str} (h : Agrees w (.str s))
    (ht : Json.pyEq w (.str t) = true) : s = t := by
  obtain rfl := Json.pyEq_str_iff.mp ht
  rcases h with h | h
  · exact (Json.str.inj h).symm
  · exact (Json.str.inj (Json.pyEq_str_iff.mp h)).symm

theorem eq_masked_of_agrees {w v : Json} (h : Agrees w v) (hw : Json.pyEq w masked = true) :
    v = masked := by
  obtain rfl : w = masked := Json.pyEq_str_iff.mp hw
  rcases h with h | h
  · exact h.symm
  · cases v <;> simp [masked, Json.pyEq] at h ⊢
    exact h.symm

theorem not_pyEq_nan (w : Json) : Json.pyEq w (.float .nan) = false := by
  cases w with
  | float f => cases f <;> simp [Json.pyEq, Json.num?]
  | _ => simp [Json.pyEq, Json.num?]

/-- Objects that agree have agreeing members under the same keys. -/
theorem exists_agreeing_member {ws members : List (Str × Json)} (hws : DistinctMembers ws)
    (hmembers : DistinctMembers members) (h : Agrees (.obj ws) (.obj members)) {p : Str × Json}
    (hp : p ∈ members) : ∃ w, (p.1, w) ∈ ws ∧ Agrees w p.2 := by
  rcases h with h | h
  · obtain rfl := Json.obj.inj h
    exact ⟨p.2, hp, .inl rfl⟩
  rw [Json.pyEq, Bool.and_eq_true, beq_iff_eq, pyEqObj_iff] at h
  obtain ⟨hlength, h⟩ := h
  -- the keys of the one are those of the other, as they are as many
  have hsub : Json.keys ws ⊆ Json.keys members := by
    intro k hk
    obtain ⟨q, hq, rfl⟩ := List.mem_map.mp hk
    obtain ⟨w, hw, -⟩ := h q hq
    exact Json.mem_keys (Json.mem_of_lookup hw)
  have hperm : (Json.keys ws).Perm (Json.keys members) := by
    refine ((keys_nodup_of_distinct hws).subperm hsub).perm_of_length_le ?_
    rw [Json.keys, Json.keys, List.length_map, List.length_map, hlength]
  have hkey : p.1 ∈ Json.keys ws := hperm.mem_iff.mpr (List.mem_map_of_mem hp)
  obtain ⟨q, hq, hqp⟩ := List.mem_map.mp hkey
  obtain ⟨v, hv, heq⟩ := h q hq
  rw [hqp, Json.lookup_of_mem (keys_nodup_of_distinct hmembers) hp] at hv
  obtain rfl := Option.some.inj hv
  exact ⟨q.2, hqp ▸ hq, .inr heq⟩

mutual

/-- A value is whole when one that agrees with it equals what is shown of it. -/
theorem whole_of_agrees : ∀ {v w : Json}, Distinct w → Distinct v → Agrees w v →
    Json.pyEq w (sanitize v) = true → Whole v
  | .null, _, _, _, _, _ => by rw [Whole]; trivial
  | .bool b, _, _, _, _, _ => by rw [Whole]; trivial
  | .int i, _, _, _, _, _ => by rw [Whole]; trivial
  | .float f, w, _, _, _, h => by
    rw [Whole]
    rintro rfl
    rw [sanitize, not_pyEq_nan] at h
    exact Bool.false_ne_true h
  | .str s, w, _, _, hw, h => by
    rw [Whole]
    rw [sanitize] at h
    have heq := eq_str_of_agrees hw h
    rw [shorten] at heq
    split at heq
    · exact Or.inl ‹_›
    split at heq
    · exact Or.inr ‹_›
    -- a text that is cut has 240 characters afterwards
    · have hlength := congrArg List.length heq
      rw [List.length_append, List.length_take, show (str "...").length = 3 by decide] at hlength
      exact Or.inr (by omega)
  | .arr items, w, hdw, hd, hw, h => by
    rw [Distinct] at hd
    rw [sanitize] at h
    rw [Whole]
    cases w with
    | arr ws =>
      rw [Distinct] at hdw
      rw [Json.pyEq] at h
      refine wholeItems_of_agrees hdw hd (hw.imp Json.arr.inj fun hw => ?_) h
      rw [Json.pyEq] at hw
      exact hw
    | float f => cases f <;> simp [Json.pyEq, Json.num?] at h
    | _ => simp [Json.pyEq, Json.num?] at h
  | .obj members, w, hdw, hd, hw, h => by
    rw [Distinct] at hd
    rw [sanitize] at h
    rw [Whole]
    cases w with
    | obj ws =>
      rw [Distinct] at hdw
      rw [Json.pyEq, Bool.and_eq_true, beq_iff_eq, length_sanitizeMembers, pyEqObj_iff] at h
      have hlength : ws.length = members.length := by
        rcases hw with hw | hw
        · rw [Json.obj.inj hw]
        · rw [Json.pyEq, Bool.and_eq_true, beq_iff_eq] at hw
          exact hw.1
      have hn : members.length ≤ 40 := by omega
      refine ⟨hn, wholeMembers_of_agrees fun p hp => ?_⟩
      obtain ⟨w', hw', hagrees⟩ := exists_agreeing_member hdw hd hw hp
      obtain ⟨u, hu, heq⟩ := h.2 _ hw'
      rw [lookup_sanitizeMembers hd hn hp] at hu
      obtain rfl := Option.some.inj hu
      exact ⟨w', (distinctMembers_iff.mp hdw).2 _ hw', (distinctMembers_iff.mp hd).2 p hp, hagrees,
        heq⟩
    | float f => cases f <;> simp [Json.pyEq, Json.num?] at h
    | _ => simp [Json.pyEq, Json.num?] at h

theorem wholeItems_of_agrees : ∀ {n : ℕ} {items ws : List Json}, DistinctItems ws →
    DistinctItems items → (ws = items ∨ Json.pyEqList ws items = true) →
    Json.pyEqList ws (sanitizeItems n items) = true → items.length ≤ n ∧ WholeItems items
  | n, [], _, _, _, _, _ => ⟨Nat.zero_le n, by rw [WholeItems]; trivial⟩
  | 0, v :: items, ws, _, _, hw, h => by
    cases ws with
    | nil => simp [Json.pyEqList] at hw
    | cons w ws => simp [sanitizeItems, Json.pyEqList] at h
  | n + 1, v :: items, ws, hdw, hd, hw, h => by
    cases ws with
    | nil => simp [Json.pyEqList] at hw
    | cons w ws =>
      rw [DistinctItems] at hdw hd
      rw [sanitizeItems, Json.pyEqList, Bool.and_eq_true] at h
      rw [List.cons.injEq, Json.pyEqList, Bool.and_eq_true] at hw
      obtain ⟨hn, hitems⟩ := wholeItems_of_agrees hdw.2 hd.2 (hw.imp And.right And.right) h.2
      refine ⟨by simpa using hn, ?_⟩
      rw [WholeItems]
      exact ⟨whole_of_agrees hdw.1 hd.1 (hw.imp And.left And.left) h.1, hitems⟩

theorem wholeMembers_of_agrees : ∀ {members : List (Str × Json)},
    (∀ p ∈ members, ∃ w, Distinct w ∧ Distinct p.2 ∧ Agrees w p.2 ∧
      Json.pyEq w (sanitizeValue p.2 p.1) = true) → WholeMembers members
  | [], _ => by rw [WholeMembers]; trivial
  | (k, v) :: members, h => by
    obtain ⟨⟨w, hdw, hd, hagrees, hv⟩, h⟩ := List.forall_mem_cons.mp h
    rw [WholeMembers]
    refine ⟨?_, wholeMembers_of_agrees h⟩
    unfold sanitizeValue at hv
    by_cases hk : k ≠ [] ∧ isSensitiveKey k = true
    · rw [if_pos hk]
      rw [if_pos (by simpa using hk)] at hv
      exact eq_masked_of_agrees hagrees hv
    · rw [if_neg hk]
      rw [if_neg (by simpa using hk)] at hv
      exact whole_of_agrees hdw hd hagrees hv

end

/-- **A value that agrees with another equals what is shown of the other** exactly when nothing
of that is cut or masked. -/
theorem pyEq_sanitize_of_agrees {v w : Json} (hdw : Distinct w) (hd : Distinct v)
    (h : Json.pyEq w v = true) : Json.pyEq w (sanitize v) = true ↔ Whole v := by
  refine ⟨whole_of_agrees hdw hd (.inr h), fun hwhole => ?_⟩
  rw [sanitize_of_whole hwhole]
  exact h

/-- **A value equals what is shown of it exactly when nothing of it is cut or masked**
(and it equals itself at all). -/
theorem pyEq_sanitize_iff {v : Json} (h : Distinct v) :
    Json.pyEq v (sanitize v) = true ↔ Whole v := by
  refine ⟨whole_of_agrees h h (.inl rfl), fun hw => ?_⟩
  rw [sanitize_of_whole hw]
  exact pyEq_self_of_whole h hw

/-- No resource key is a sensitive one. -/
theorem resourceKeys_plain : ∀ key ∈ resourceKeys, isSensitiveKey key = false := by decide +kernel

theorem sanitizeValue_resource {key : Str} (h : key ∈ resourceKeys) (v : Json) :
    sanitizeValue v key = sanitize v := by
  unfold sanitizeValue
  rw [resourceKeys_plain key h, Bool.and_false]
  rfl

end AI2Apps.Capabilities
