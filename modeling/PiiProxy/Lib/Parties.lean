import Mathlib.Algebra.BigOperators.Group.Finset.Basic
import Mathlib.Algebra.Order.BigOperators.Group.Finset
import Mathlib.Data.Fintype.BigOperators
import Mathlib.Data.List.Chain
import Mathlib.Logic.Relation
import Mathlib.Tactic.Abel

/-! Parties with a phase each, of which every step changes one. A measure that falls with every step bounds the runs, and
    where the only states without a next step are good ones, a good one is reached; the ranks of the phases, summed, are
    such a measure. -/

namespace Parties

section Total
variable {ι Phase M : Type*} [Fintype ι] [AddCommMonoid M] (f : ι → Phase → M) (phase : ι → Phase)

/-- What the phases come to, summed over the parties. -/
def total : M := ∑ i, f i (phase i)

theorem total_const (p : Phase) : total f (fun _ => p) = ∑ i, f i p := rfl

variable [DecidableEq ι]

theorem total_update (i : ι) (p : Phase) :
    total f (Function.update phase i p) + f i (phase i) = total f phase + f i p := by
  have hsplit : ∀ g : ι → M, ∑ j, g j = g i + ∑ j ∈ Finset.univ.erase i, g j := fun g =>
    (Finset.add_sum_erase Finset.univ g (Finset.mem_univ i)).symm
  have hothers : ∑ j ∈ Finset.univ.erase i, f j (Function.update phase i p j) =
      ∑ j ∈ Finset.univ.erase i, f j (phase j) :=
    Finset.sum_congr rfl fun j hj => by rw [Function.update_of_ne (Finset.ne_of_mem_erase hj)]
  rw [total, total, hsplit fun j => f j (Function.update phase i p j), hsplit fun j => f j (phase j), hothers,
    Function.update_self]
  abel

/-- Records that change by what the phase of the party comes to stay what all phases come to. -/
theorem balanced_update {M : Type*} [AddCancelCommMonoid M] {f : ι → Phase → M} {phase : ι → Phase} {records records' : M}
    {i : ι} {p : Phase} (h : records = total f phase) (hrecords : records' + f i (phase i) = records + f i p) :
    records' = total f (Function.update phase i p) := by
  apply add_right_cancel (b := f i (phase i))
  rw [hrecords, h, total_update]

end Total

section Measure
variable {σ : Type*} {step : σ → σ → Prop} {Inv : σ → Prop} {measure : σ → Nat} {s : σ}

/-- A measure that every step lowers from a state that the invariant allows. -/
structure Falls (step : σ → σ → Prop) (Inv : σ → Prop) (measure : σ → Nat) : Prop where
  keeps : ∀ s s', Inv s → step s s' → Inv s'
  lt : ∀ s s', Inv s → step s s' → measure s' < measure s

/-- A run is no longer than the measure with which it begins. -/
theorem Falls.length_le (h : Falls step Inv measure) (run : List σ) (hrun : (s :: run).IsChain step) (hinv : Inv s) :
    run.length ≤ measure s := by
  induction run generalizing s with
  | nil => exact Nat.zero_le _
  | cons s' run ih =>
    obtain ⟨hstep, hrest⟩ := List.isChain_cons_cons.mp hrun
    have hlength := ih hrest (h.keeps s s' hinv hstep)
    have hlt := h.lt s s' hinv hstep
    rw [List.length_cons]
    omega

/-- If a state that the invariant allows is settled or has a next step, a settled one can be reached from it. -/
theorem Falls.reaches (h : Falls step Inv measure) {Settled : σ → Prop}
    (progress : ∀ s, Inv s → Settled s ∨ ∃ s', step s s') (hinv : Inv s) :
    ∃ s', Relation.ReflTransGen step s s' ∧ Settled s' := by
  generalize hn : measure s = n
  induction n using Nat.strong_induction_on generalizing s with
  | h n ih =>
    rcases progress s hinv with hsettled | ⟨s', hstep⟩
    · exact ⟨s, Relation.ReflTransGen.refl, hsettled⟩
    · have hlt := h.lt s s' hinv hstep
      obtain ⟨s'', hsteps, hsettled⟩ := ih _ (hn ▸ hlt) (h.keeps s s' hinv hstep) rfl
      exact ⟨s'', Relation.ReflTransGen.head hstep hsteps, hsettled⟩

end Measure

section Rank
variable {σ ι Phase : Type*} [Fintype ι] [DecidableEq ι] {step : σ → σ → Prop} {phase : σ → ι → Phase}
  {rank : Phase → Nat} {s : σ}

/-- Every step is that of one party, and lowers its rank. -/
def Descends (step : σ → σ → Prop) (phase : σ → ι → Phase) (rank : Phase → Nat) : Prop :=
  ∀ s s', step s s' → ∃ i p, phase s' = Function.update (phase s) i p ∧ rank p < rank (phase s i)

theorem Descends.total_lt (h : Descends step phase rank) {s' : σ} (hstep : step s s') :
    total (fun _ => rank) (phase s') < total (fun _ => rank) (phase s) := by
  obtain ⟨i, p, hphase, hrank⟩ := h s s' hstep
  have hupdate := total_update (fun _ : ι => rank) (phase s) i p
  rw [hphase]
  omega

theorem Descends.falls (h : Descends step phase rank) {Inv : σ → Prop} (keeps : ∀ s s', Inv s → step s s' → Inv s') :
    Falls step Inv fun s => total (fun _ => rank) (phase s) where
  keeps := keeps
  lt _ _ _ hstep := h.total_lt hstep

/-- A run is no longer than the rank that it begins with. -/
theorem Descends.length_le (h : Descends step phase rank) (run : List σ) (hrun : (s :: run).IsChain step) :
    run.length ≤ total (fun _ => rank) (phase s) :=
  have hfalls : Falls step (fun _ => True) fun s => total (fun _ => rank) (phase s) := h.falls fun _ _ _ _ => trivial
  hfalls.length_le run hrun trivial

theorem Descends.reaches (h : Descends step phase rank) {Inv Settled : σ → Prop}
    (keeps : ∀ s s', Inv s → step s s' → Inv s') (progress : ∀ s, Inv s → Settled s ∨ ∃ s', step s s') (hinv : Inv s) :
    ∃ s', Relation.ReflTransGen step s s' ∧ Settled s' :=
  (h.falls keeps).reaches progress hinv

end Rank

end Parties
