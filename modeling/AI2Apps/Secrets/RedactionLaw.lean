import AI2Apps.Secrets.Redaction

/-!
# When injected secrets do not come back

What redaction is for: no string of a redacted output has a value in it, nothing is left of the
longest value at a position because a shorter one was replaced first, and an output without values
is left as it is.  Redaction looks at no key, takes the values in the order in which they were put
in, and puts in markers whose ends can be read together with the text around them.

* `Safe`: what redaction is for.
* `NamesFree`, `Redactable`: no key has a value; in a text no marker can make a value with what stands
  beside it, and no value overlaps a longer one that is put in after it.
* `redaction_law`: a safe output has the first, and an output with both is safe.
-/

namespace AI2Apps.Secrets

open TextReplace Provenance Provenance.Marked

/-! ## The purpose -/

/-- The text has no three characters in a row, or more, from the marker. -/
def SharesNone (value : Str) : Prop := ∀ part, 3 ≤ part.length → part <:+: value → ¬ part <:+: marker

/-- The values the redaction is made for. -/
def Admissible (values : List Str) : Prop := ∀ value ∈ values, 8 ≤ value.length ∧ SharesNone value

/-- The longest value at a position of a text. -/
def Longest (values : List Str) (text : Str) (i : ℕ) (value : Str) : Prop :=
  value ∈ values ∧ value <+: text.drop i ∧ ∀ other ∈ values, other <+: text.drop i → other.length ≤ value.length

/-- The text after the turns of the values, with the places of its characters in the first text. -/
def trace (values : List Str) (text : Str) : Marked := run marker values (number text)

/-- If the first value replaced over the longest one at a position is shorter, nothing of the longest
one is left at the end. -/
def Whole (values : List Str) (text : Str) : Prop :=
  ∀ i value, Longest values text i value → ∀ before secret after, values = before ++ secret :: after →
    secret.length < value.length → Kept (characters text i value.length) (trace before text) →
    ¬ Kept (characters text i value.length) (trace (before ++ [secret]) text) →
    ∀ x ∈ characters text i value.length, x ∉ trace values text

/-- What redaction is for. -/
structure Safe (values : List Str) (output : Json) : Prop where
  texts : ∀ s ∈ texts (redact values output), ∀ value ∈ values, ¬ value <:+: s
  names : ∀ s ∈ names (redact values output), ∀ value ∈ values, ¬ value <:+: s
  whole : ∀ text ∈ Secrets.texts output, Whole values text
  same : (∀ s ∈ Secrets.texts output ++ Secrets.names output, ∀ value ∈ values, ¬ value <:+: s) →
    redact values output = output

/-! ## The condition -/

/-- No key has a value in it. -/
def NamesFree (values : List Str) (output : Json) : Prop :=
  ∀ s ∈ names output, ∀ value ∈ values, ¬ value <:+: s

/-- Nothing in the text goes wrong with the values that are in it. -/
structure Redactable (values : List Str) (text : Str) : Prop where
  /-- No value is made by the end or the beginning of a marker with what stands beside the value that
  it is put in for. -/
  apart : ∀ value ∈ values, ¬ Exposed marker values value text
  /-- No value is put in before a longer one, the longest at its position, that it overlaps. -/
  order : ∀ before secret after, values = before ++ secret :: after → ∀ value ∈ after,
    secret.length < value.length → ∀ i j, Longest values text i value → secret <+: text.drop j →
      j + secret.length ≤ i ∨ i + value.length ≤ j

/-! ## The texts -/

variable {values : List Str} {text : Str} {output : Json}

/-- The places forgotten, it is the redacted text. -/
theorem text_trace (values : List Str) (text : Str) : Marked.text (trace values text) = redactText values text := by
  rw [trace, text_run, text_number, redactText]

theorem marker_ne_nil : marker ≠ [] := by decide

/-- **A value is in a redacted text only where it is read with a character of a marker.** -/
theorem infix_redactText_iff (hne : [] ∉ values) {value : Str} (hmem : value ∈ values) :
    value <:+: redactText values text ↔ Joined value (trace values text) := by
  rw [← text_trace]
  exact infix_text_run_iff marker_ne_nil (ne_of_mem_of_not_mem hmem hne) hmem (nodup_number text)

theorem ne_nil_of_admissible (h : Admissible values) : [] ∉ values := by
  intro hempty
  have hlength : 8 ≤ ([] : Str).length := (h [] hempty).1
  exact absurd hlength (by decide)

/-- A value is no part of the marker, nor the marker of a value. -/
theorem apart_of_admissible (h : Admissible values) {value : Str} (hmem : value ∈ values) :
    ¬ marker <:+: value ∧ ¬ value <:+: marker := by
  obtain ⟨hlength, hnone⟩ := h value hmem
  refine ⟨fun hinside => hnone marker (by decide) hinside List.infix_rfl, fun hinside => ?_⟩
  exact hnone value (by omega) List.infix_rfl hinside

/-- After any turns each marker stands for a value that was there. -/
theorem standsFor_trace (hvalues : Admissible values) (htext : Redactable values text) {turns : List Str}
    (hturns : turns ⊆ values) : StandsFor marker values (trace turns text) (number text) := by
  refine standsFor_run marker_ne_nil (fun value hmem => ?_) (placed_number text) turns hturns
  have hexposed : ¬ Exposed marker values value (Marked.text (number text)) := by
    rw [text_number]
    exact htext.apart value hmem
  exact ⟨ne_of_mem_of_not_mem hmem (ne_nil_of_admissible hvalues), (apart_of_admissible hvalues hmem).1,
    (apart_of_admissible hvalues hmem).2, hexposed⟩

/-- After any turns no value is read with a character of a marker. -/
theorem not_joined_trace (hvalues : Admissible values) (htext : Redactable values text) {turns : List Str}
    (hturns : turns ⊆ values) {value : Str} (hmem : value ∈ values) : ¬ Joined value (trace turns text) := by
  obtain ⟨hmarker, hvalue⟩ := apart_of_admissible hvalues hmem
  intro hjoined
  have hexposed := (standsFor_trace hvalues htext hturns).exposed hmarker hvalue hjoined
  rw [text_number] at hexposed
  exact htext.apart value hmem hexposed

/-- No longest value is broken by a shorter one. -/
theorem whole_of_redactable (hvalues : Admissible values) (htext : Redactable values text) :
    Whole values text := by
  intro i value hlongest before secret after hsplit hshorter hkept hbroken
  have hne := ne_nil_of_admissible hvalues
  have hspell : Marked.text (characters text i value.length) = value := text_characters hlongest.2.1
  have hmem : value ∈ before ++ secret :: after := hsplit ▸ hlongest.1
  rcases List.mem_append.mp hmem with hbefore | htail
  · -- its own turn was earlier, and had left it whole
    exact absurd hkept (not_kept_run (placed_characters text i value.length) hspell
      (ne_of_mem_of_not_mem hlongest.1 hne) hbefore (nodup_number text) (infix_characters text i value.length))
  · rcases List.mem_cons.mp htail with rfl | hafter
    · exact absurd hshorter (lt_irrefl _)
    · -- a character of it is lost to an occurrence of the shorter one, which overlaps it in the text
      have hsecret : secret ∈ values := hsplit ▸ List.mem_append_right _ (List.mem_cons_self ..)
      have hold : secret ≠ [] := ne_of_mem_of_not_mem hsecret hne
      have hturns : before ⊆ values := hsplit ▸ List.subset_append_left before _
      obtain ⟨x, hx, hlost⟩ : ∃ x ∈ characters text i value.length, x ∉ trace (before ++ [secret]) text := by
        by_contra hnone
        push Not at hnone
        exact hbroken hnone
      rw [trace, run_concat before _ hold] at hlost
      obtain ⟨f, hf, hfspell, hxf⟩ := exists_found_of_lost hold _ (hkept x hx) hlost
      have hplaced : Placed f := by
        by_contra hjoined
        exact not_joined_trace hvalues htext hturns hsecret ⟨f, hf, hfspell, hjoined⟩
      obtain ⟨j, hchars, hprefix⟩ :=
        exists_characters_of_infix (infix_of_infix_run marker_ne_nil hplaced before hf)
      have hcount : f.length = secret.length := by rw [← hfspell, Marked.text, List.length_map]
      rw [hchars, hcount] at hxf
      rw [hfspell] at hprefix
      obtain ⟨p, hp, hip, hpi⟩ := mem_characters hx
      obtain ⟨q, hq, hjq, hqj⟩ := mem_characters hxf
      obtain rfl : p = q := Option.some.inj (hp.symm.trans hq)
      rcases htext.order before secret after hsplit value hafter hshorter i j hlongest hprefix with h | h <;> omega

/-- A text without values is left as it is. -/
theorem redactText_eq_self : ∀ {values : List Str}, (∀ value ∈ values, ¬ value <:+: text) →
    redactText values text = text
  | [], _ => rfl
  | value :: values, h => by
    have hstep : (if value = [] then text else replace text value marker) = text := by
      split_ifs with hempty
      · rfl
      · exact replace_of_absent (h value (List.mem_cons_self ..))
    rw [redactText, List.foldl_cons, hstep]
    exact redactText_eq_self fun other hother => h other (List.mem_cons_of_mem _ hother)

/-! ## The outputs -/

theorem same_of_free (h : ∀ s ∈ texts output ++ names output, ∀ value ∈ values, ¬ value <:+: s) :
    redact values output = output :=
  redact_eq_self values output fun s hs => redactText_eq_self (h s (List.mem_append_left _ hs))

/-- The parts of the purpose, in terms of the first texts. -/
theorem safe_iff (hne : [] ∉ values) : Safe values output ↔ NamesFree values output ∧
    ∀ text ∈ texts output, (∀ value ∈ values, ¬ Joined value (trace values text)) ∧ Whole values text := by
  constructor
  · intro h
    refine ⟨fun s hs => h.names s (by rwa [names_redact]), fun text htext => ⟨fun value hmem hjoined => ?_,
      h.whole text htext⟩⟩
    refine h.texts (redactText values text) ?_ value hmem ((infix_redactText_iff hne hmem).mpr hjoined)
    rw [texts_redact]
    exact List.mem_map_of_mem htext
  · rintro ⟨hnames, htexts⟩
    refine ⟨fun s hs value hmem hinside => ?_, fun s hs => ?_, fun text htext => (htexts text htext).2, same_of_free⟩
    · rw [texts_redact] at hs
      obtain ⟨text, htext, rfl⟩ := List.mem_map.mp hs
      exact (htexts text htext).1 value hmem ((infix_redactText_iff hne hmem).mp hinside)
    · rw [names_redact] at hs
      exact hnames s hs

/-- **A safe output has no value in a key.  An output whose keys have none is safe if in no text of it a
marker can make a value with what stands beside it, and no value overlaps a longer one that is put
in after it.** -/
theorem redaction_law (hvalues : Admissible values) (output : Json) :
    (Safe values output → NamesFree values output) ∧
    (NamesFree values output → (∀ text ∈ texts output, Redactable values text) → Safe values output) := by
  have hne := ne_nil_of_admissible hvalues
  refine ⟨fun h => ((safe_iff hne).mp h).1, fun hnames htexts => ?_⟩
  refine (safe_iff hne).mpr ⟨hnames, fun text htext => ⟨fun value hmem => ?_, ?_⟩⟩
  · exact not_joined_trace hvalues (htexts text htext) (List.Subset.refl values) hmem
  · exact whole_of_redactable hvalues (htexts text htext)

/-- With the longest value first it is enough that none begins with an end of the marker or ends with
a beginning of it. -/
theorem redactable_of_sorted (hsorted : values.Pairwise fun value later => later.length ≤ value.length)
    (hends : ∀ value ∈ values, (∀ e ∈ marker.tails, e <+: value → e = []) ∧
      ∀ b ∈ marker.inits, b <:+ value → b = []) (text : Str) : Redactable values text where
  apart value hmem := by
    obtain ⟨hfront, hback⟩ := hends value hmem
    exact not_exposed_of_ends (fun e he => hfront e (List.mem_tails e marker |>.mpr he))
      fun b hb => hback b (List.mem_inits b marker |>.mpr hb)
  order before secret after hsplit value hafter hshorter := by
    rw [hsplit, List.pairwise_append, List.pairwise_cons] at hsorted
    exact absurd hshorter (Nat.not_lt.mpr (hsorted.2.1.1 value hafter))

/-! ## Two secrets, one the beginning of the other -/

/-- Three characters in a row of the marker are enough to look for. -/
theorem sharesNone_of_windows {value : Str} (h : ∀ i < 6, ¬ (marker.drop i).take 3 <:+: value) :
    SharesNone value := by
  rintro part hlength hvalue ⟨before, after, hmarker⟩
  have htotal : before.length + part.length + after.length = 8 := by
    have hcount := congrArg List.length hmarker
    rw [List.length_append, List.length_append] at hcount
    exact hcount
  refine h before.length (by omega) ?_
  rw [← hmarker, List.append_assoc, List.drop_left, List.take_append_of_le_length hlength]
  exact (List.take_prefix 3 part).isInfix.trans hvalue

/-- The values of the two secrets. -/
def twoValues : List Str := [str "abcdefgh", str "abcdefghij"]

theorem admissible_twoValues : Admissible twoValues := by
  have hwindows : ∀ value ∈ twoValues, ∀ i < 6, ¬ (marker.drop i).take 3 <:+: value := by decide +kernel
  have hlength : ∀ value ∈ twoValues, 8 ≤ value.length := by decide +kernel
  exact fun value hmem => ⟨hlength value hmem, sharesNone_of_windows (hwindows value hmem)⟩

/-- The tool answers with both, the longer one in a text of its own. -/
def answered : Json := .obj [(str "user", .str (str "for abcdefgh")), (str "password", .str (str "abcdefghij"))]

theorem redaction_law_twoValues : Safe twoValues.reverse answered := by
  have hadmissible : Admissible twoValues.reverse := fun value hmem =>
    admissible_twoValues value (List.mem_reverse.mp hmem)
  have hnames : ∀ s ∈ names answered, ∀ value ∈ twoValues.reverse, ¬ value <:+: s := by decide +kernel
  have hends : ∀ value ∈ twoValues.reverse, (∀ e ∈ marker.tails, e <+: value → e = []) ∧
      ∀ b ∈ marker.inits, b <:+ value → b = [] := by decide +kernel
  exact (redaction_law hadmissible answered).2 hnames fun text _ =>
    redactable_of_sorted (by decide +kernel) hends text

/-- A store with the two secrets, both for the tool `system.echo`. -/
def twoSecrets : Repository where
  secrets :=
    [⟨str "sec_00000000000000000000000000000001", str "one", [str "system.echo"], .active⟩,
     ⟨str "sec_00000000000000000000000000000002", str "two", [str "system.*"], .active⟩]
  consumers := []
  load key := if key = str "one" then .ok (str "abcdefgh")
    else if key = str "two" then .ok (str "abcdefghij") else .error (str "unavailable")
  events := []

/-- A call with both. -/
def bothArguments : Json.Object :=
  [(str "user", .str (str "secret://sec_00000000000000000000000000000001")),
   (str "password", .str (str "secret://sec_00000000000000000000000000000002"))]

/-- The tool answers with the longer one, as a key and as a text. -/
def echoed : Json := .obj [(str "abcdefghij", .str (str "abcdefghij"))]

/-- The key is as it was, and of the text the end is left. -/
example : redact twoValues echoed = .obj [(str "abcdefghij", .str (str "[secret]ij"))] := by rfl

/-- A marker is read with the text behind it. -/
example : redactText [str "]bbbbbbb"] (str "]bbbbbbbbbbbbbb") = str "[secret]bbbbbbb" := by decide +kernel

theorem secret_comes_back : ¬ ∀ (arguments : Json.Object) (toolName : Str) (repository later : Repository)
    (injection : SecretInjection), injectArguments arguments toolName repository = .ok injection later →
    Admissible injection.sensitiveValues → ∀ output, Safe injection.sensitiveValues output := by
  intro h
  have hsafe : Safe twoValues echoed :=
    h bothArguments (str "system.echo") twoSecrets _ _ rfl admissible_twoValues echoed
  refine hsafe.names (str "abcdefghij") ?_ (str "abcdefghij") ?_ List.infix_rfl
  · exact List.mem_cons_self ..
  · exact List.mem_cons_of_mem _ (List.mem_singleton_self _)

end AI2Apps.Secrets
