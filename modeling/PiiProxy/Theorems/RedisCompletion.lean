import Mathlib.Data.Finset.Card
import Mathlib.Data.Fintype.Card
import PiiProxy.Lib.Parties
import PiiProxy.Theorems.RedisAtomic

/-! # Every call over Redis comes to its end

No call waits for another one: an attempt that is aborted is the price of a change of the key, and a call gives up after
five of them. -/

namespace PiiProxy.ProcessService.Redis
open RedisRestorationStore Relation

/-- The most steps that a call can still take. -/
def Phase.rank : Phase → Nat
  | idle => 18
  | preparing => 17
  | pending _ attempt => 1 + 3 * (maxCasRetries - attempt)
  | watching _ attempt => 3 + 3 * (maxCasRetries - (attempt + 1))
  | ready _ attempt _ => 2 + 3 * (maxCasRetries - (attempt + 1))
  | done _ => 0

/-- The attempts are those of the loop. -/
def Phase.Within : Phase → Prop
  | pending _ attempt => attempt ≤ maxCasRetries
  | watching _ attempt | ready _ attempt _ => attempt < maxCasRetries
  | idle | preparing | done _ => True

section
variable {codec : Codec} {ι : Type} {calls : Calls ι} {s s' : System codec ι} {i j : ι} {phase : Phase}

/-- The keys that Redis has are those of the calls, and no call is beyond its last attempt. -/
structure Bounded (calls : Calls ι) (s : System codec ι) : Prop where
  keys : ∀ redisKey, (s.values redisKey).isSome = true → ∃ i, calls.redisKey i = redisKey
  within : ∀ i, (s.phase i).Within

theorem Bounded.start (calls : Calls ι) : Bounded calls (System.start codec ι) where
  keys redisKey hsome := by cases hsome
  within i := trivial

variable [DecidableEq ι]

theorem Bounded.move (h : Bounded calls s) (hwithin : phase.Within) : Bounded calls (s.moveTo i phase) where
  keys := h.keys
  within j := by
    rw [phase_moveTo]
    by_cases hji : j = i
    · subst hji
      rw [Function.update_self]
      exact hwithin
    · rw [Function.update_of_ne hji]
      exact h.within j

omit [DecidableEq ι] in
theorem Bounded.write (h : Bounded calls s) {redisKey : Str} {value : Option codec.Token}
    (hkey : value.isSome = true → ∃ i, calls.redisKey i = redisKey) : Bounded calls (s.write calls redisKey value) where
  keys redisKey' hsome := by
    rw [values_write] at hsome
    by_cases hredis : redisKey' = redisKey
    · subst hredis
      rw [Function.update_self] at hsome
      exact hkey hsome
    · rw [Function.update_of_ne hredis] at hsome
      exact h.keys redisKey' hsome
  within := h.within

theorem Bounded.step (h : Bounded calls s) (hstep : Step calls s s') : Bounded calls s' := by
  have hwithin : ∀ {i : ι} {phase : Phase}, s.phase i = phase → phase.Within := fun hi => hi ▸ h.within _
  cases hstep with
  | reject | lookupFails | prepareFails | readFails | refuse | executeFails | giveUp => exact h.move trivial
  | @lookup i found hi hnamed hfound =>
    refine h.move ?_
    split
    · exact Nat.zero_le _
    · trivial
  | @prepare i record hi hprepare => exact h.move (Nat.zero_le _)
  | @watch i prepared attempt hi hlt => exact Bounded.move ⟨h.keys, h.within⟩ hlt
  | @read i prepared attempt current state hi hfound hdecide =>
    have hlt : attempt < maxCasRetries := hwithin hi
    exact h.move hlt
  | @execute i prepared attempt state hi hfree httl => exact (h.write fun _ => ⟨i, rfl⟩).move trivial
  | @abort i prepared attempt state hi htouched =>
    have hlt : attempt < maxCasRetries := hwithin hi
    exact h.move hlt
  | @expire redisKey hsome => exact h.write fun hnone => by cases hnone

theorem Bounded.steps (h : Bounded calls s) (hsteps : ReflTransGen (Step calls) s s') : Bounded calls s' := by
  induction hsteps with
  | refl => exact h
  | tail _ hstep ih => exact ih.step hstep

/-! ### What the steps use up -/

section Measure
variable [Fintype ι]

/-- The keys of the calls that Redis has. -/
def present (calls : Calls ι) (s : System codec ι) : Finset Str :=
  (Finset.univ.image calls.redisKey).filter fun redisKey => (s.values redisKey).isSome = true

/-- The steps that the calls can still take, with an expiry for each key. -/
def potential (calls : Calls ι) (s : System codec ι) : Nat :=
  Parties.total (fun _ => Phase.rank) s.phase + (present calls s).card

omit [DecidableEq ι] in
theorem mem_present {redisKey : Str} :
    redisKey ∈ present calls s ↔ (∃ i, calls.redisKey i = redisKey) ∧ (s.values redisKey).isSome = true := by
  rw [present, Finset.mem_filter, Finset.mem_image]
  simp

theorem potential_move (calls : Calls ι) (s : System codec ι) (i : ι) (phase : Phase)
    (hrank : phase.rank < (s.phase i).rank) : potential calls (s.moveTo i phase) < potential calls s := by
  have htotal := Parties.total_update (fun _ : ι => Phase.rank) s.phase i phase
  have hpresent : present calls (s.moveTo i phase) = present calls s := rfl
  rw [potential, potential, hpresent, phase_moveTo]
  omega

omit [DecidableEq ι] in
theorem card_present_write (calls : Calls ι) (s : System codec ι) (redisKey : Str) (value : Option codec.Token) :
    (present calls (s.write calls redisKey value)).card ≤ (present calls s).card + 1 := by
  have hsub : present calls (s.write calls redisKey value) ⊆ insert redisKey (present calls s) := by
    intro redisKey' hmem
    obtain ⟨hused, hsome⟩ := mem_present.mp hmem
    rw [values_write] at hsome
    rw [Finset.mem_insert]
    by_cases hredis : redisKey' = redisKey
    · exact Or.inl hredis
    · rw [Function.update_of_ne hredis] at hsome
      exact Or.inr (mem_present.mpr ⟨hused, hsome⟩)
  exact le_trans (Finset.card_le_card hsub) (Finset.card_insert_le _ _)

omit [DecidableEq ι] in
theorem card_present_expire (hkey : ∃ i, calls.redisKey i = k) (hsome : (s.values k).isSome = true) :
    (present calls (s.write calls k none)).card < (present calls s).card := by
  refine Finset.card_lt_card ((Finset.ssubset_iff_of_subset fun redisKey hmem => ?_).mpr
    ⟨k, mem_present.mpr ⟨hkey, hsome⟩, fun hmem => ?_⟩)
  · obtain ⟨hused, hleft⟩ := mem_present.mp hmem
    rw [values_write] at hleft
    by_cases hredis : redisKey = k
    · subst hredis
      exact mem_present.mpr ⟨hused, hsome⟩
    · rw [Function.update_of_ne hredis] at hleft
      exact mem_present.mpr ⟨hused, hleft⟩
  · have hleft := (mem_present.mp hmem).2
    rw [values_write, Function.update_self] at hleft
    cases hleft

/-- Each step uses something up, as a key that appears has cost its call more than that. -/
theorem potential_falls (calls : Calls ι) :
    Parties.Falls (Step calls : System codec ι → System codec ι → Prop) (Bounded calls) (potential calls) := by
  refine ⟨fun s s' hbounded hstep => hbounded.step hstep, fun s s' hbounded hstep => ?_⟩
  cases hstep with
  | @reject i hi hunnamed => exact potential_move calls s i _ (by rw [hi]; simp [Phase.rank])
  | @lookup i found hi hnamed hfound =>
    refine potential_move calls s i _ ?_
    rw [hi]
    split <;> simp [Phase.rank, maxCasRetries]
  | @lookupFails i e hi hnamed hfound => exact potential_move calls s i _ (by rw [hi]; simp [Phase.rank])
  | @prepare i record hi hprepare => exact potential_move calls s i _ (by rw [hi]; simp [Phase.rank, maxCasRetries])
  | @prepareFails i e hi hprepare => exact potential_move calls s i _ (by rw [hi]; simp [Phase.rank])
  | @watch i prepared attempt hi hlt =>
    refine potential_move calls (s.watch i) i _ ?_
    rw [phase_watch, hi, Phase.rank, Phase.rank]
    omega
  | @read i prepared attempt current state hi hfound hdecide =>
    refine potential_move calls s i _ ?_
    rw [hi, Phase.rank, Phase.rank]
    omega
  | @readFails i prepared attempt e hi hfound => exact potential_move calls s i _ (by rw [hi, Phase.rank, Phase.rank]; omega)
  | @refuse i prepared attempt current e hi hfound hdecide =>
    exact potential_move calls s i _ (by rw [hi, Phase.rank, Phase.rank]; omega)
  | @execute i prepared attempt state hi hfree httl =>
    have hpresent := card_present_write calls s (calls.redisKey i) (some (codec.encode state))
    have htotal := Parties.total_update (fun _ : ι => Phase.rank) s.phase i (.done (outcomeFromState (some state)))
    rw [hi, Phase.rank, Phase.rank] at htotal
    show Parties.total _ (Function.update s.phase i _) + (present calls (s.write calls (calls.redisKey i) _)).card < _
    rw [potential]
    omega
  | @executeFails i prepared attempt state hi hfree httl =>
    exact potential_move calls s i _ (by rw [hi, Phase.rank, Phase.rank]; omega)
  | @abort i prepared attempt state hi htouched => exact potential_move calls s i _ (by rw [hi, Phase.rank, Phase.rank]; omega)
  | @giveUp i prepared hi => exact potential_move calls s i _ (by rw [hi, Phase.rank, Phase.rank]; omega)
  | @expire redisKey hsome =>
    have hpresent := card_present_expire (hbounded.keys redisKey hsome) hsome
    show Parties.total _ s.phase + (present calls (s.write calls redisKey none)).card < _
    rw [potential]
    omega

end Measure

/-! ### A call has a step -/

/-- The call has a step of its own. -/
def CanStep (calls : Calls ι) (s : System codec ι) (i : ι) : Prop := ∃ s', Step calls s s' ∧ s'.phase i ≠ s.phase i

theorem CanStep.of (hstep : Step calls s s') (hphase : s'.phase = Function.update s.phase i phase) (hne : phase ≠ s.phase i) :
    CanStep calls s i := by
  refine ⟨s', hstep, ?_⟩
  rw [hphase, Function.update_self]
  exact hne

theorem Bounded.canStep (h : Bounded calls s) (i : ι) : (∃ answer, s.phase i = .done answer) ∨ CanStep calls s i := by
  have hwithin := h.within i
  cases hi : s.phase i with
  | idle =>
    refine Or.inr ?_
    by_cases hnamed : calls.Named i
    · cases hfound : s.found calls i with
      | error e => exact CanStep.of (.lookupFails hi hnamed hfound) rfl (by simp [hi])
      | ok found => exact CanStep.of (.lookup hi hnamed hfound) rfl (by rw [hi]; split <;> simp)
    · exact CanStep.of (.reject hi hnamed) rfl (by simp [hi])
  | preparing =>
    refine Or.inr ?_
    cases hprepare : calls.prepare i 0 with
    | error e => exact CanStep.of (.prepareFails hi hprepare) rfl (by simp [hi])
    | ok record => exact CanStep.of (.prepare hi hprepare) rfl (by simp [hi])
  | pending prepared attempt =>
    refine Or.inr ?_
    rw [hi] at hwithin
    rcases Nat.lt_or_eq_of_le hwithin with hlt | rfl
    · exact CanStep.of (.watch hi hlt) rfl (by simp [hi])
    · exact CanStep.of (.giveUp hi) rfl (by simp [hi])
  | watching prepared attempt =>
    refine Or.inr ?_
    cases hfound : s.found calls i with
    | error e => exact CanStep.of (.readFails hi hfound) rfl (by simp [hi])
    | ok current =>
      cases hdecide : calls.decide i attempt prepared current with
      | error e => exact CanStep.of (.refuse hi hfound hdecide) rfl (by simp [hi])
      | ok state => exact CanStep.of (.read hi hfound hdecide) rfl (by simp [hi])
  | ready prepared attempt state =>
    refine Or.inr ?_
    cases htouched : s.touched i with
    | true => exact CanStep.of (.abort hi htouched) rfl (by simp [hi])
    | false =>
      rcases Int.lt_or_le 0 calls.client.ttlSeconds with httl | httl
      · exact CanStep.of (.execute hi htouched httl) rfl (by simp [hi])
      · exact CanStep.of (.executeFails hi htouched httl) rfl (by simp [hi])
  | done answer => exact Or.inl ⟨answer, rfl⟩

/-- However the calls are interleaved and whatever expires, eighteen steps for each call are all that a run can have. A
    call without an answer can always step, whatever the others have done; and every call gets an answer in the end. -/
theorem redis_calls_complete [Fintype ι] (codec : Codec) (calls : Calls ι) :
    (∀ run : List (System codec ι), (System.start codec ι :: run).IsChain (Step calls) →
        run.length ≤ 18 * Fintype.card ι) ∧
      ∀ s : System codec ι, ReflTransGen (Step calls) (System.start codec ι) s →
        (∀ i, (∃ answer, s.phase i = .done answer) ∨ CanStep calls s i) ∧
        ((¬ ∃ s', Step calls s s') → ∀ i, ∃ answer, s.phase i = .done answer) ∧
        ∃ s', ReflTransGen (Step calls) s s' ∧ ∀ i, ∃ answer, s'.phase i = .done answer := by
  have hprogress : ∀ s : System codec ι, Bounded calls s → (∀ i, ∃ answer, s.phase i = .done answer) ∨ ∃ s', Step calls s s' := by
    intro s hbounded
    by_cases hdone : ∀ i, ∃ answer, s.phase i = .done answer
    · exact Or.inl hdone
    · obtain ⟨i, hi⟩ := not_forall.mp hdone
      rcases hbounded.canStep i with hanswered | ⟨s', hstep, -⟩
      · exact absurd hanswered hi
      · exact Or.inr ⟨s', hstep⟩
  refine ⟨fun run hrun => ?_, fun s hsteps => ?_⟩
  · have hlength := (potential_falls calls).length_le run hrun (Bounded.start calls)
    have hpotential : potential calls (System.start codec ι) = 18 * Fintype.card ι := by
      have hpresent : present calls (System.start codec ι) = ∅ := Finset.filter_false_of_mem fun _ _ => by
        intro hsome
        cases hsome
      rw [potential, hpresent, Finset.card_empty, add_zero]
      show Parties.total (fun _ => Phase.rank) (fun _ : ι => Phase.idle) = _
      rw [Parties.total_const, Finset.sum_const_nat fun _ _ => rfl, mul_comm]
      rfl
    omega
  · have hbounded : Bounded calls s := (Bounded.start calls).steps hsteps
    refine ⟨hbounded.canStep, fun hstuck => ?_, (potential_falls calls).reaches hprogress hbounded⟩
    rcases hprogress s hbounded with hdone | hstep
    · exact hdone
    · exact absurd hstep hstuck

end

end PiiProxy.ProcessService.Redis
