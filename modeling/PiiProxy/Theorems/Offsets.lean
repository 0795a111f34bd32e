import PiiProxy.Processing.ProcessService

/-! # The offsets of the regex detector

Every entity that the detector emits lies in the text and has the text there as its value, also after its clean-up.
So the masking engine drops none of those that the resolution keeps. -/

namespace PiiProxy
open Backtrack

/-- `value` is what stands in the text from `start` to `stop`, and it is not empty. -/
def Spans (text value : Str) (start stop : Nat) : Prop :=
  start < stop ∧ stop ≤ text.length ∧ slice text start stop = value

section
variable {text value kept : Str} {start stop : Nat}

/-- An initial part of a value that is not empty spans the initial part of its place. -/
theorem Spans.initial (h : Spans text value start stop) (hpre : kept <+: value) (hne : kept ≠ []) :
    Spans text kept start (start + kept.length) := by
  obtain ⟨hlt, hle, hslice⟩ := h
  have hlen : value.length = stop - start := hslice ▸ length_slice hle
  have hkept := hpre.length_le
  have hpos := List.length_pos_of_ne_nil hne
  refine ⟨by omega, by omega, ?_⟩
  have htake : kept = (slice text start stop).take kept.length := hslice ▸ List.prefix_iff_eq_take.mp hpre
  rw [slice, List.take_take] at htake
  rw [slice, Nat.add_sub_cancel_left]
  conv_rhs => rw [htake]
  congr 1
  omega

theorem Spans.stop_eq (h : Spans text value start stop) : stop = start + value.length := by
  obtain ⟨hlt, hle, hslice⟩ := h
  have hlen : value.length = stop - start := hslice ▸ length_slice hle
  omega

/-- The value and the end that the clean-up has reached: an initial part of the value, and where it ends. -/
def Trims (value : Str) (start : Nat) (v : Str × Nat) : Prop := v.1 <+: value ∧ v.2 = start + v.1.length

theorem Trims.rstrip {v : Str × Nat} (hpre : v.1 <+: value) :
    Trims value start (PiiProxy.rstrip v.1, start + (PiiProxy.rstrip v.1).length) :=
  ⟨(List.rdropWhile_prefix _ _).trans hpre, rfl⟩

namespace RegexDetector

/-- The last step of the clean-up, which drops a value that is no authority. -/
theorem issuer_kept_spans (h : Spans text value start stop) {v : Str × Nat} (hv : Trims value start v) :
    let result : Str × Nat × Nat :=
      if v.1.isEmpty || v.1.all isdigit then ([], start, start)
      else if Patterns.yearPhrase.fullmatch v.1 then ([], start, start)
      else (v.1, start, v.2)
    result.1 = [] ∨ Spans text result.1 result.2.1 result.2.2 := by
  dsimp only
  split
  · exact Or.inl rfl
  · rename_i hkeep
    have hne : v.1 ≠ [] := fun hnil => hkeep (by rw [hnil]; rfl)
    split
    · exact Or.inl rfl
    · refine Or.inr ?_
      rw [hv.2]
      exact h.initial hv.1 hne

/-- The clean-up of an issuer leaves an initial part of it, or nothing. -/
theorem cleanIssuer_spans (h : Spans text value start stop) :
    (cleanIssuer text value start stop).1 = [] ∨
      Spans text (cleanIssuer text value start stop).1 (cleanIssuer text value start stop).2.1
        (cleanIssuer text value start stop).2.2 := by
  have hfragment : ∀ v : Str × Nat, Trims value start v → ∀ frag : Match,
      Trims value start (rstrip (v.1.take frag.start), start + (rstrip (v.1.take frag.start)).length) :=
    fun v hv frag => Trims.rstrip (v := (v.1.take frag.start, v.2)) ((List.take_prefix _ _).trans hv.1)
  have hwhole : Trims value start (value, stop) := ⟨List.prefix_refl _, h.stop_eq⟩
  have hstripped : Trims value start (rstrip value, start + (rstrip value).length) := Trims.rstrip hwhole.1
  have hdate : ∀ p : Prop, [Decidable p] → Trims value start
      (if p then (rstrip value, start + (rstrip value).length) else (value, stop)) := by
    intro p _
    split
    · exact hstripped
    · exact hwhole
  refine issuer_kept_spans h (v := ?_) ?_
  split
  · exact hfragment _ (hdate _) _
  · exact hdate _

/-- Stripping leaves a value that begins with something else than punctuation. -/
theorem stripPunctuation_spans (h : Spans text value start stop)
    (hfirst : ∃ x, text[start]? = some x ∧ ".,;!? ".toList.contains x = false) :
    Spans text (stripPunctuation value stop).1 start (stripPunctuation value stop).2 := by
  obtain ⟨x, hx, hsolid⟩ := hfirst
  have hmem : x ∈ value := by
    obtain ⟨hlt, -, hslice⟩ := h
    have hget : value[0]? = some x := by
      rw [← hslice, getElem?_slice, if_pos (by omega), Nat.add_zero, hx]
    exact List.mem_of_getElem? hget
  have hpre : (value.rdropWhile fun c => ".,;!? ".toList.contains c) <+: value := List.rdropWhile_prefix _ _
  have hne : (value.rdropWhile fun c => ".,;!? ".toList.contains c) ≠ [] := by
    intro hnil
    have := List.rdropWhile_eq_nil_iff.mp hnil x hmem
    rw [hsolid] at this
    cases this
  have hstop : stop - (value.length - (value.rdropWhile fun c => ".,;!? ".toList.contains c).length) =
      start + (value.rdropWhile fun c => ".,;!? ".toList.contains c).length := by
    have := h.stop_eq
    have := hpre.length_le
    omega
  simp only [stripPunctuation, hstop]
  exact h.initial hpre hne

/-! ### The patterns -/

theorem begins_of_ungrouped : ∀ rule ∈ rules, groupedTypes.contains rule.1 = false →
    rule.2.begins (fun _ => true) = true := by
  simp only [rules, List.forall_mem_cons]
  decide +kernel

/-- No value that a pattern captures begins with a character that is stripped from its end. -/
theorem groupsBegin_of_grouped : ∀ rule ∈ rules, groupedTypes.contains rule.1 = true →
    rule.2.groupsBegin (fun p => ".,;!? ".toList.all fun c => !p c) = true := by
  simp only [rules, List.forall_mem_cons]
  decide +kernel

theorem solid_of_ok (p : Char → Bool) (h : (".,;!? ".toList.all fun c => !p c) = true) (x : Char) (hx : p x = true) :
    ".,;!? ".toList.contains x = false := by
  rw [← Bool.not_eq_true, List.contains_iff_mem]
  intro hmem
  have := List.all_eq_true.mp h x hmem
  rw [hx] at this
  cases this

/-- The span of a match is that of its value, unless the clean-up of an issuer left nothing. -/
theorem matchSpan_spans {type : PIIType} {pattern : Patterns.Pattern} (hrule : (type, pattern) ∈ rules) {m : Match}
    (hm : m ∈ pattern.finditer text) (h : matchSpan text type m = .ok (value, start, stop)) :
    type = .passportIssuer ∧ value = [] ∨ Spans text value start stop := by
  obtain ⟨hreach, hmatch⟩ := Regex.mem_finditer.mp hm
  have hstart := hreach.le_length
  rw [matchSpan] at h
  rcases hgrouped : groupedTypes.contains type with _ | _
  · rw [hgrouped] at h
    obtain ⟨rfl, rfl, rfl⟩ : slice text m.start m.stop = value ∧ m.start = start ∧ m.stop = stop := by
      simpa using h
    have hbegin := Regex.match?_begins (P := fun _ => True) (fun _ _ _ _ => trivial)
      (begins_of_ungrouped _ hrule hgrouped) hstart hmatch
    exact Or.inr ⟨hbegin.1, (Regex.match?_bounds hstart hmatch).2.2, rfl⟩
  · rw [hgrouped] at h
    rcases hgroup : m.group with _ | ⟨start', stop'⟩
    · rw [hgroup] at h
      cases h
    rw [hgroup] at h
    obtain ⟨⟨hlt, hfirst⟩, hle⟩ := Regex.match?_groupsBegin solid_of_ok (groupsBegin_of_grouped _ hrule hgrouped)
      hstart hmatch hgroup
    have hspans : Spans text (slice text start' stop') start' stop' := ⟨hlt, hle, rfl⟩
    have hstripped := stripPunctuation_spans hspans hfirst
    by_cases hissuer : type = .passportIssuer
    · simp only [hissuer, if_true, Except.ok.injEq] at h
      have hclean := cleanIssuer_spans hstripped
      rw [h] at hclean
      exact hclean.imp (fun hnil => ⟨hissuer, hnil⟩) id
    · simp only [hissuer, if_true, if_false, Except.ok.injEq, Prod.mk.injEq] at h
      obtain ⟨rfl, rfl, rfl⟩ := h
      exact Or.inr hstripped

theorem validSpan_of_detect {today : Date} {entities : List PIIEntity} (h : detect today text = .ok entities) :
    ∀ e ∈ entities, MaskingEngine.validSpan text e = true := by
  intro e he
  obtain ⟨type, pattern, hrule, m, hm, hentity⟩ := (mem_detect h e).mp he
  obtain ⟨value, start, stop, hspan, hkept, rfl⟩ := entityOf_some hentity
  obtain ⟨hlt, hle, hslice⟩ := (matchSpan_spans hrule hm hspan).resolve_left hkept
  exact MaskingEngine.validSpan_iff.mpr
    ⟨Int.natCast_nonneg start, Int.ofNat_lt.mpr hlt, Int.ofNat_le.mpr hle, hslice⟩

/-- Every entity that the detector emits spans its value, and the masking engine takes all of those that the
    resolution and the policy leave. -/
theorem detect_spans (today : Date) (text : Str) :
    ∃ entities, detect today text = .ok entities ∧
      (∀ e ∈ entities, 0 ≤ e.start ∧ e.start < e.stop ∧ e.stop ≤ text.length ∧
        slice text e.start.toNat e.stop.toNat = e.value) ∧
      ∀ policy : ConsumerPolicy, MaskingEngine.selectSpans text (ProcessService.protectedEntities policy entities) =
        ProcessService.protectedEntities policy entities := by
  obtain ⟨entities, hdetect⟩ := detect_isOk today text
  have hvalid := validSpan_of_detect hdetect
  refine ⟨entities, hdetect, fun e he => MaskingEngine.validSpan_iff.mp (hvalid e he), fun policy => ?_⟩
  have hkept : ∀ e ∈ ProcessService.protectedEntities policy entities, e ∈ entities := fun e he =>
    Resolution.mem_of_mem_unique (Resolution.mem_resolveSpans.mp (List.mem_filter.mp he).1).1
  refine MaskingEngine.selectSpans_eq_self (fun e he => hvalid e (hkept e he)) ?_
  have hproper : ∀ e ∈ entities, e.start ≤ e.stop := fun e he =>
    Int.le_of_lt (MaskingEngine.validSpan_iff.mp (hvalid e he)).2.1
  exact (Resolution.pairwise_resolveSpans hproper).filter _

end RegexDetector

end

end PiiProxy
