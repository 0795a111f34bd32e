import Mathlib.Data.Fintype.Card
import Mathlib.Algebra.BigOperators.Fin
import PiiProxy.Lib.Parties
import PiiProxy.Processing.Concurrent

/-! # Every call comes to its end

The steps of a call are few, and the stripe locks cause no deadlock: a call that waits for a lock waits for one whose
holder has a step. -/

namespace PiiProxy.ProcessService
open InMemoryRestorationStore

/-- The most steps that a call can still take. -/
def Phase.rank : Phase → Nat
  | idle => 7
  | preparing => 6
  | waiting _ => 5
  | holding _ => 4
  | deciding _ _ => 3
  | writing _ _ => 2
  | releasing _ => 1
  | done _ => 0

/-- The call has its answer. -/
def Phase.isDone : Phase → Bool
  | done _ => true
  | idle | preparing | waiting _ | holding _ | deciding _ _ | writing _ _ | releasing _ => false

section
variable {codec : Codec} {ι : Type} {calls : Calls ι} {s s' : System codec ι} {i : ι} {t : Time}

/-- A lock is held by a call inside its transition, on a key of that stripe. -/
def Held (calls : Calls ι) (s : System codec ι) : Prop :=
  ∀ stripe i, s.holder stripe = some i → (s.phase i).locked = true ∧ calls.stripe (calls.key i) = stripe

/-- All calls have their answers, and no lock is left. -/
def Settled (s : System codec ι) : Prop := (∀ i, (s.phase i).isDone = true) ∧ ∀ stripe, s.holder stripe = none

/-- Where all are done, no one holds a lock. -/
theorem Held.settled (h : Held calls s) (hdone : ∀ i, (s.phase i).isDone = true) : Settled s := by
  refine ⟨hdone, fun stripe => ?_⟩
  cases hholder : s.holder stripe with
  | none => rfl
  | some i =>
    have hlocked := (h stripe i hholder).1
    have hi := hdone i
    cases hphase : s.phase i with
    | done answer =>
      rw [hphase] at hlocked
      cases hlocked
    | idle | preparing | waiting _ | holding _ | deciding _ _ | writing _ _ | releasing _ =>
      rw [hphase] at hi
      cases hi

theorem Held.start (calls : Calls ι) (store : InMemoryRestorationStore codec) : Held calls (System.start ι store) := by
  rintro stripe i ⟨⟩

variable [DecidableEq ι]

/-- A step changes the phase of one call, to one of a lower rank. -/
theorem Step.descends {readings : List Time} (hstep : Step calls s readings s') :
    ∃ i phase, s'.phase = Function.update s.phase i phase ∧ phase.rank < (s.phase i).rank := by
  cases hstep with
  | @reject i hi hempty => exact ⟨i, _, rfl, by rw [hi]; simp [Phase.rank]⟩
  | @lookup i now found store hi hne hget =>
    refine ⟨i, _, rfl, ?_⟩
    rw [hi]
    split <;> simp [Phase.rank]
  | @lookupFails i now e store hi hne hget => exact ⟨i, _, rfl, by rw [hi]; simp [Phase.rank]⟩
  | @prepare i state hi hprepare => exact ⟨i, _, rfl, by rw [hi]; simp [Phase.rank]⟩
  | @prepareFails i e hi hprepare => exact ⟨i, _, rfl, by rw [hi]; simp [Phase.rank]⟩
  | @acquire i prepared hi hfree => exact ⟨i, _, rfl, by rw [hi]; simp [Phase.rank]⟩
  | @read i prepared evictAt readAt current store hi hle hread => exact ⟨i, _, rfl, by rw [hi]; simp [Phase.rank]⟩
  | @readFails i prepared evictAt readAt e store hi hle hread => exact ⟨i, _, rfl, by rw [hi]; simp [Phase.rank]⟩
  | @decide i prepared current state hi hdecide => exact ⟨i, _, rfl, by rw [hi]; simp [Phase.rank]⟩
  | @refuse i prepared current e hi hdecide => exact ⟨i, _, rfl, by rw [hi]; simp [Phase.rank]⟩
  | @write i current state writeAt store hi hwrite => exact ⟨i, _, rfl, by rw [hi]; simp [Phase.rank]⟩
  | @writeFails i current state writeAt e store hi hwrite => exact ⟨i, _, rfl, by rw [hi]; simp [Phase.rank]⟩
  | @release i answer hi => exact ⟨i, _, rfl, by rw [hi]; simp [Phase.rank]⟩

/-- A step that changes the phase of a call is its own. -/
theorem Step.own {readings : List Time} (hstep : Step calls s readings s') (hne : s'.phase i ≠ s.phase i) :
    s'.phase = Function.update s.phase i (s'.phase i) ∧ (s'.phase i).rank < (s.phase i).rank := by
  obtain ⟨j, phase, hphase, hrank⟩ := hstep.descends
  by_cases hij : i = j
  · subst hij
    rw [hphase, Function.update_self]
    exact ⟨rfl, hrank⟩
  · rw [hphase, Function.update_of_ne hij] at hne
    exact absurd rfl hne

/-- A call that stays inside its transition, or was outside. -/
theorem Held.move {phase : Phase} (h : Held calls s) (hphase : s'.phase = Function.update s.phase i phase)
    (hholder : s'.holder = s.holder) (hlocked : (s.phase i).locked = true → phase.locked = true) : Held calls s' := by
  intro stripe j hj
  rw [hholder] at hj
  obtain ⟨hin, hstripe⟩ := h stripe j hj
  refine ⟨?_, hstripe⟩
  rw [hphase]
  by_cases hji : j = i
  · subst hji
    rw [Function.update_self]
    exact hlocked hin
  · rw [Function.update_of_ne hji]
    exact hin

theorem Held.step {readings : List Time} (h : Held calls s) (hstep : Step calls s readings s') : Held calls s' := by
  -- A call outside its transition holds no lock, so that its moves need nothing.
  have houtside : ∀ {i : ι} {phase phase' : Phase}, s.phase i = phase → phase.locked = false →
      (s.phase i).locked = true → phase'.locked = true := by
    intro i phase phase' hi hfree hlocked
    rw [hi, hfree] at hlocked
    cases hlocked
  cases hstep with
  | @reject i hi hempty => exact h.move rfl rfl (houtside hi rfl)
  | @lookup i now found store hi hne hget => exact h.move rfl rfl (houtside hi rfl)
  | @lookupFails i now e store hi hne hget => exact h.move rfl rfl (houtside hi rfl)
  | @prepare i state hi hprepare => exact h.move rfl rfl (houtside hi rfl)
  | @prepareFails i e hi hprepare => exact h.move rfl rfl (houtside hi rfl)
  | @acquire i prepared hi hfree =>
    intro stripe j hj
    change Function.update s.holder _ _ _ = _ at hj
    rw [phase_moveTo]
    by_cases hstripe : stripe = calls.stripe (calls.key i)
    · subst hstripe
      rw [Function.update_self] at hj
      obtain rfl := Option.some.inj hj
      exact ⟨by rw [Function.update_self]; rfl, rfl⟩
    · rw [Function.update_of_ne hstripe] at hj
      obtain ⟨hin, hkey⟩ := h stripe j hj
      have hji : j ≠ i := by
        rintro rfl
        rw [hi] at hin
        cases hin
      exact ⟨by rw [Function.update_of_ne hji]; exact hin, hkey⟩
  | @read i prepared evictAt readAt current store hi hle hread => exact h.move rfl rfl fun _ => rfl
  | @readFails i prepared evictAt readAt e store hi hle hread => exact h.move rfl rfl fun _ => rfl
  | @decide i prepared current state hi hdecide => exact h.move rfl rfl fun _ => rfl
  | @refuse i prepared current e hi hdecide => exact h.move rfl rfl fun _ => rfl
  | @write i current state writeAt store hi hwrite => exact h.move rfl rfl fun _ => rfl
  | @writeFails i current state writeAt e store hi hwrite => exact h.move rfl rfl fun _ => rfl
  | @release i answer hi =>
    intro stripe j hj
    change Function.update s.holder _ _ _ = _ at hj
    rw [phase_moveTo]
    by_cases hstripe : stripe = calls.stripe (calls.key i)
    · subst hstripe
      rw [Function.update_self] at hj
      cases hj
    · rw [Function.update_of_ne hstripe] at hj
      obtain ⟨hin, hkey⟩ := h stripe j hj
      have hji : j ≠ i := fun hji => hstripe (by rw [← hkey, hji])
      exact ⟨by rw [Function.update_of_ne hji]; exact hin, hkey⟩

theorem Held.steps (h : Held calls s)
    (hsteps : Relation.ReflTransGen (fun s s' => ∃ readings, Step calls s readings s') s s') : Held calls s' := by
  induction hsteps with
  | refl => exact h
  | tail _ hstep ih =>
    obtain ⟨readings, hstep⟩ := hstep
    exact ih.step hstep

/-! ### A call has a step unless it waits for a lock -/

/-- The call has a step, whatever the clock says. -/
def CanStep (calls : Calls ι) (s : System codec ι) (i : ι) (t : Time) : Prop :=
  ∃ readings s', Step calls s readings s' ∧ (∀ reading ∈ readings, reading = t) ∧ s'.phase i ≠ s.phase i

theorem CanStep.of {readings : List Time} {phase : Phase} (hstep : Step calls s readings s')
    (hreadings : ∀ reading ∈ readings, reading = t) (hphase : s'.phase = Function.update s.phase i phase)
    (hne : phase ≠ s.phase i) : CanStep calls s i t := by
  refine ⟨readings, s', hstep, hreadings, ?_⟩
  rw [hphase, Function.update_self]
  exact hne

/-- What a call does next, by its phase. -/
theorem canStep_or_waiting (calls : Calls ι) (s : System codec ι) (i : ι) (t : Time) :
    (s.phase i).isDone = true ∨ CanStep calls s i t ∨
      ∃ prepared j, s.phase i = .waiting prepared ∧ s.holder (calls.stripe (calls.key i)) = some j := by
  cases hi : s.phase i with
  | idle =>
    refine Or.inr (Or.inl ?_)
    by_cases hempty : (calls.request i).payload = [] ∨ (calls.request i).payloadId = []
    · exact CanStep.of (.reject hi hempty) (by simp) rfl (by simp [hi])
    · cases hget : s.store.get (calls.key i) t with
      | mk found store =>
        cases found with
        | error e => exact CanStep.of (.lookupFails hi hempty hget) (by simp) rfl (by simp [hi])
        | ok found => exact CanStep.of (.lookup hi hempty hget) (by simp) rfl (by rw [hi]; split <;> simp)
  | preparing =>
    refine Or.inr (Or.inl ?_)
    cases hprepare : calls.prepare i with
    | error e => exact CanStep.of (.prepareFails hi hprepare) (by simp) rfl (by simp [hi])
    | ok state => exact CanStep.of (.prepare hi hprepare) (by simp) rfl (by simp [hi])
  | waiting prepared =>
    refine Or.inr ?_
    cases hholder : s.holder (calls.stripe (calls.key i)) with
    | none => exact Or.inl (CanStep.of (.acquire hi hholder) (by simp) rfl (by simp [hi]))
    | some j => exact Or.inr ⟨prepared, j, rfl, rfl⟩
  | holding prepared =>
    refine Or.inr (Or.inl ?_)
    cases hread : s.store.transitionRead (calls.key i) t t with
    | mk current store =>
      cases current with
      | error e => exact CanStep.of (.readFails hi (le_refl t) hread) (by simp) rfl (by simp [hi])
      | ok current => exact CanStep.of (.read hi (le_refl t) hread) (by simp) rfl (by simp [hi])
  | deciding prepared current =>
    refine Or.inr (Or.inl ?_)
    cases hdecide : calls.decide i prepared current with
    | error e => exact CanStep.of (.refuse hi hdecide) (by simp) rfl (by simp [hi])
    | ok state => exact CanStep.of (.decide hi hdecide) (by simp) rfl (by simp [hi])
  | writing current state =>
    refine Or.inr (Or.inl ?_)
    by_cases hfull : s.store.isFull (calls.key i) = true
    · have hwrite : s.store.transitionWrite (calls.key i) (some state) t = (.error capacityExceeded, s.store) :=
        if_pos hfull
      exact CanStep.of (.writeFails hi hwrite) (by simp) rfl (by simp [hi])
    · have hwrite : s.store.transitionWrite (calls.key i) (some state) t =
          (.ok (some state), s.store.put (calls.key i) state t) := if_neg hfull
      exact CanStep.of (.write hi hwrite) (by simp) rfl (by simp [hi])
  | releasing answer => exact Or.inr (Or.inl (CanStep.of (.release hi) (by simp) rfl (by simp [hi])))
  | done answer => exact Or.inl rfl

/-- The holder of a lock has a step. -/
theorem Held.canStep (h : Held calls s) {stripe : Nat} (hholder : s.holder stripe = some i) (t : Time) :
    CanStep calls s i t := by
  have hlocked := (h stripe i hholder).1
  rcases canStep_or_waiting calls s i t with hdone | hstep | ⟨prepared, j, hi, -⟩
  · cases hi : s.phase i with
    | done answer =>
      rw [hi] at hlocked
      cases hlocked
    | idle | preparing | waiting _ | holding _ | deciding _ _ | writing _ _ | releasing _ =>
      rw [hi] at hdone
      cases hdone
  · exact hstep
  · rw [hi] at hlocked
    cases hlocked

/-- There is no deadlock. -/
theorem Held.progress (h : Held calls s) (t : Time) : Settled s ∨ ∃ i, CanStep calls s i t := by
  by_cases hdone : ∀ i, (s.phase i).isDone = true
  · exact Or.inl (h.settled hdone)
  · refine Or.inr ?_
    obtain ⟨i, hi⟩ := not_forall.mp hdone
    rcases canStep_or_waiting calls s i t with hdone | hstep | ⟨prepared, j, -, hholder⟩
    · exact absurd hdone hi
    · exact ⟨i, hstep⟩
    · exact ⟨j, h.canStep hholder t⟩

/-- However the calls are interleaved, seven steps for each are all that a run can have, and a run that cannot go on, by
    any reading of the clock, has answered every call and left no stripe lock. From every state that a run reaches, a
    call that has no answer can step, whatever the time, or waits for the lock of a call that can; and such an end can
    still be reached. -/
theorem calls_complete [Fintype ι] (calls : Calls ι) (store : InMemoryRestorationStore codec) :
    (∀ run : List (System codec ι),
        (System.start ι store :: run).IsChain (fun s s' => ∃ readings, Step calls s readings s') →
        run.length ≤ 7 * Fintype.card ι) ∧
      ∀ s : System codec ι,
        Relation.ReflTransGen (fun s s' => ∃ readings, Step calls s readings s') (System.start ι store) s →
        (∀ i t, (s.phase i).isDone = true ∨ CanStep calls s i t ∨
          ∃ j, s.holder (calls.stripe (calls.key i)) = some j ∧ CanStep calls s j t) ∧
        ((¬ ∃ readings s', Step calls s readings s') → Settled s) ∧
        ∃ s', Relation.ReflTransGen (fun s s' => ∃ readings, Step calls s readings s') s s' ∧ Settled s' := by
  have hdescends : Parties.Descends (fun s s' : System codec ι => ∃ readings, Step calls s readings s')
      System.phase Phase.rank := by
    rintro s s' ⟨readings, hstep⟩
    exact hstep.descends
  constructor
  · intro run hrun
    have hlength := hdescends.length_le run hrun
    have htotal : Parties.total (fun _ => Phase.rank) (System.start ι store).phase = 7 * Fintype.card ι := by
      show Parties.total (fun _ => Phase.rank) (fun _ : ι => Phase.idle) = _
      rw [Parties.total_const, Finset.sum_const, Finset.card_univ, smul_eq_mul, mul_comm]
      rfl
    omega
  · intro s hsteps
    have hheld : Held calls s := (Held.start calls store).steps hsteps
    refine ⟨fun i t => ?_, fun hstuck => ?_, ?_⟩
    · rcases canStep_or_waiting calls s i t with hdone | hstep | ⟨prepared, j, -, hholder⟩
      · exact Or.inl hdone
      · exact Or.inr (Or.inl hstep)
      · exact Or.inr (Or.inr ⟨j, hholder, hheld.canStep hholder t⟩)
    · rcases hheld.progress 0 with hsettled | ⟨i, readings, s', hstep, -⟩
      · exact hsettled
      · exact absurd ⟨readings, s', hstep⟩ hstuck
    · refine hdescends.reaches ?_ (fun s h => ?_) hheld
      · rintro s s' h ⟨readings, hstep⟩
        exact h.step hstep
      · exact (h.progress 0).imp id fun ⟨_, readings, s', hstep, _⟩ => ⟨s', readings, hstep⟩

end

end PiiProxy.ProcessService
