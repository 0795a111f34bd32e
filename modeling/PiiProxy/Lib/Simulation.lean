import Mathlib.Logic.Relation

/-! Two machines, of which one simulates the other: each step from a state that is related to a state of the other
    machine leads to one that is related to a state which the other machine reaches in any number of steps. -/

namespace PiiProxy
open Relation

section
variable {α β : Type*} {step : α → α → Prop} {step' : β → β → Prop} {R : α → β → Prop} {a a' : α} {b : β}

def Simulates (step : α → α → Prop) (step' : β → β → Prop) (R : α → β → Prop) : Prop :=
  ∀ ⦃a a' b⦄, R a b → step a a' → ∃ b', ReflTransGen step' b b' ∧ R a' b'

namespace Simulates

/-- So does any number of steps. -/
theorem run (h : Simulates step step' R) (hab : R a b) (hsteps : ReflTransGen step a a') :
    ∃ b', ReflTransGen step' b b' ∧ R a' b' := by
  induction hsteps with
  | refl => exact ⟨b, .refl, hab⟩
  | tail _ hstep ih =>
    obtain ⟨b₁, hsteps₁, h₁⟩ := ih
    obtain ⟨b₂, hsteps₂, h₂⟩ := h h₁ hstep
    exact ⟨b₂, hsteps₁.trans hsteps₂, h₂⟩

end Simulates

end

end PiiProxy
