import PiiProxy.Theorems.PolicyFilter

/-! # What full masks leave in the clear

Under full masks every character keeps its place, so the masked text can be read position by position. It hides
exactly the letters and digits of the entities that win every comparison of the overlap resolution, and it shows
a value again wherever the text repeats it in the clear. -/

namespace PiiProxy
open ProcessService MaskingEngine Masking

section
variable {digests : Digests} {around : Surroundings} {payload payloadId : Str} {policy : ConsumerPolicy}

/-! ### Coverage -/

/-- Every letter and digit inside the span of a candidate is replaced by `*` in its place. -/
def Covered (text : Str) (candidates : List PIIEntity) (maskedText : Str) : Prop :=
  ∀ e ∈ candidates, ∀ i : Nat, e.start ≤ i → i < e.stop → ∀ c, text[i]? = some c → isalnum c = true →
    maskedText[i]? = some fullMaskChar

/-- Every letter and digit inside the span of a candidate stands inside the span of one that loses no
    comparison. -/
def WinnersCover (text : Str) (candidates : List PIIEntity) : Prop :=
  ∀ e ∈ candidates, ∀ i : Nat, e.start ≤ i → i < e.stop → ∀ c, text[i]? = some c → isalnum c = true →
    ∃ u ∈ Resolution.unique candidates,
      Sweep.Unbeaten Resolution.better (Resolution.comparisons candidates) u ∧ u.start ≤ i ∧ i < u.stop

/-- The policy enables every type, masks every type fully, and has no context rule that could keep a type. -/
structure MasksAll (policy : ConsumerPolicy) : Prop where
  enabled : ∀ type, policy.enabledTypes.contains type = true
  full : ∀ type, strategyFor policy.masking type = .fullMask
  noRule : ∀ type present, contextAllows type present (resolveContextRules policy.contextRules) = true

/-- Valid candidates are masked exactly if they lose no comparison. -/
theorem maskedEntities_resolveSpans {candidates : List PIIEntity} (all : MasksAll policy)
    (valid : ∀ e ∈ candidates, validSpan payload e = true) :
    maskedEntities payload (protectedEntities policy candidates) policy.contextRules = resolveSpans candidates := by
  have henabled : protectedEntities policy candidates = resolveSpans candidates :=
    List.filter_eq_self.mpr fun e _ => all.enabled e.type
  have hvalid : ∀ e ∈ resolveSpans candidates, validSpan payload e = true := fun e he =>
    valid e (Resolution.mem_of_mem_unique (Resolution.mem_resolveSpans.mp he).1)
  have hselect : selectSpans payload (resolveSpans candidates) = resolveSpans candidates :=
    selectSpans_eq_self hvalid (Resolution.pairwise_resolveSpans fun e he => Int.le_of_lt (validSpan_iff.mp (valid e he)).2.1)
  rw [maskedEntities, henabled, hselect]
  exact List.filter_eq_self.mpr fun e _ => all.noRule e.type _

theorem hide_eq_star_iff {c : Char} (hc : isalnum c = true) {p : Prop} [Decidable p] :
    (if p then hide c else c) = fullMaskChar ↔ p := by
  have hne : c ≠ fullMaskChar := by
    rintro rfl
    exact absurd hc (by decide)
  by_cases hp : p
  · simp [hp, hide, hc]
  · simp [hp, hne]

/-- At place `o` the text reads as `value` does, and none of the letters and digits is hidden. A hidden letter or
    digit of the text reads as the `*` that the value itself may have. -/
def ShownAt (text : Str) (entities : List PIIEntity) (contextRules : List ContextRule) (value : Str) (o : Nat) : Prop :=
  ∀ (i : Nat) c, value[i]? = some c → ∃ d, text[o + i]? = some d ∧
    (d = c ∧ ¬ (isalnum c = true ∧ Hidden text entities contextRules (o + i)) ∨
      c = fullMaskChar ∧ isalnum d = true ∧ Hidden text entities contextRules (o + i))

theorem hide_eq_iff {c d : Char} {p : Prop} [Decidable p] :
    (if p then hide d else d) = c ↔ d = c ∧ ¬ (isalnum c = true ∧ p) ∨ c = fullMaskChar ∧ isalnum d = true ∧ p := by
  by_cases hp : p
  · cases hd : isalnum d with
    | true =>
      have hne : d = c → isalnum c = true := fun h => h ▸ hd
      simp only [hp, if_true, hide, hd, and_true]
      constructor
      · exact fun h => Or.inr h.symm
      · rintro (⟨h, hc⟩ | h)
        · exact absurd (hne h) hc
        · exact h.symm
    | false =>
      simp only [hp, if_true, hide_eq_of_not_alnum hd, and_true, Bool.false_eq_true, and_false, or_false]
      constructor
      · rintro rfl
        exact ⟨rfl, by simp [hd]⟩
      · exact fun h => h.1
  · simp [hp]

end

theorem masksAll_default : MasksAll ConsumerPolicy.default where
  enabled type := by cases type <;> rfl
  full type := by cases type <;> rfl
  noRule type present := by cases type <;> rfl

/-- A name that stands twice, once without the word that marks it as a name. -/
theorem detect_repeated_name : RegexDetector.detect ⟨2026, 1, 1⟩ "Клиент Иванов, Иванов".toList =
    .ok [⟨.personName, "Иванов".toList, 7, 13, 1, RegexDetector.name⟩] := by decide +kernel

end PiiProxy
