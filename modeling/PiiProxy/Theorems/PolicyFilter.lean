import PiiProxy.Processing.ProcessService

/-! # Types that the policy leaves out

The engine resolves overlaps among all types, and the service removes the types that the policy does not enable
afterwards. A candidate of such a type that wins a comparison takes the place of one that the policy protects,
and then goes away itself. -/

namespace PiiProxy
open ProcessService

section
variable {digests : Digests} {around : Surroundings} {payload payloadId : Str} {policy : ConsumerPolicy}

/-- The same surroundings, with the candidates of other types removed before overlaps are resolved. -/
def Surroundings.onlyTypes (around : Surroundings) (types : List PIIType) : Surroundings :=
  { around with engine := around.engine.onlyTypes types }

/-- The mask and the mappings that a call prepares. -/
def preparedMask (digests : Digests) (around : Surroundings) (payload payloadId : Str) (policy : ConsumerPolicy) :
    Except PIIProxyError (Str × List (Str × Str)) :=
  (prepareMask digests around payload payloadId policy).map fun state => (state.maskedText, state.mappings)

theorem candidates_onlyTypes {types : List PIIType} {candidates : List PIIEntity} {context : DetectionContext}
    (found : around.engine.candidates payload context = .ok candidates) :
    (around.onlyTypes types).engine.candidates payload context =
      .ok (candidates.filter fun e => types.contains e.type) := by
  rw [Surroundings.onlyTypes, DetectionEngine.candidates_onlyTypes, found]
  rfl

theorem protectedEntities_onlyTypes {candidates : List PIIEntity}
    (harmless : Resolution.Harmless (fun type => policy.enabledTypes.contains type) candidates) :
    protectedEntities policy (candidates.filter fun e => policy.enabledTypes.contains e.type) =
      protectedEntities policy candidates := by
  rw [protectedEntities, Resolution.resolveSpans_filter _ harmless, List.filter_filter, protectedEntities]
  simp

/-- The condition under which a type that the policy leaves out changes nothing of the mask. -/
theorem preparedMask_of_harmless {candidates : List PIIEntity}
    (found : around.engine.candidates payload { consumerId := policy.consumerId } = .ok candidates)
    (harmless : Resolution.Harmless (fun type => policy.enabledTypes.contains type) candidates) :
    preparedMask digests around payload payloadId policy =
      preparedMask digests (around.onlyTypes policy.enabledTypes) payload payloadId policy := by
  rw [preparedMask, preparedMask, prepareMask_eq digests found, prepareMask_eq digests (candidates_onlyTypes found),
    protectedEntities_onlyTypes harmless]
  rfl

end

/-! ### Two phone numbers -/

theorem detect_phone : RegexDetector.detect ⟨2026, 1, 1⟩ "+7 999 1234567".toList =
    .ok [⟨.phone, "+7 999 1234567".toList, 0, 14, 1, RegexDetector.name⟩] := by decide +kernel

/-- A phone number in which two groups of three digits read as a passport division code. -/
theorem detect_phone_with_code : RegexDetector.detect ⟨2026, 1, 1⟩ "8 999-123-45-67".toList =
    .ok [⟨.phone, "8 999-123-45-67".toList, 0, 15, 1, RegexDetector.name⟩,
      ⟨.passportDivisionCode, "999-123".toList, 2, 9, 1, RegexDetector.name⟩] := by decide +kernel

end PiiProxy
