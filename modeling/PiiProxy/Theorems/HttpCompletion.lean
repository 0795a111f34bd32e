import PiiProxy.Theorems.HttpService

/-! # Every request is answered

The steps of a request are few, and one has a next step as long as not all are answered. -/

namespace PiiProxy.Http
open Api

/-- The most steps that a request can still take outside the process service. -/
def Phase.rank : Phase → Nat
  | arriving => 15
  | admitted => 14
  | entered => 13
  | running _ => 12
  | recording _ written => 10 - written + 1
  | answered _ => 0
  | rejected => 0

/-- The request has its response. -/
def Phase.isOver : Phase → Bool
  | answered _ | rejected => true
  | arriving | admitted | entered | running _ | recording _ _ => false

section
variable {codec : Codec} {ι : Type} {service : Service ι} {s s' : System codec ι} {i : ι}

theorem length_writes_le (service : Service ι) (i : ι) (outcome : Outcome) : (service.writes i outcome).length ≤ 10 := by
  cases outcome with
  | processed out prepared => cases prepared <;> simp [Service.writes, Service.innerWrites, Service.processWrites, Service.observed, Outcome.outerWrites]
  | raised e => cases hunexpected : e.unexpected <;> simp [Service.writes, Service.innerWrites, Service.observed, Outcome.outerWrites, hunexpected]
  | invalidBody | health | ready | scraped | unrouted =>
    simp [Service.writes, Service.innerWrites, Service.observed, Outcome.outerWrites]

/-- The phases of a request, here and in the process service. -/
def System.phases (s : System codec ι) (i : ι) : Phase × ProcessService.Phase := (s.phase i, s.core.phase i)

def rank (phases : Phase × ProcessService.Phase) : Nat := phases.1.rank + phases.2.rank

/-- All requests have their responses, and no stripe lock is left. -/
def Settled (s : System codec ι) : Prop := (∀ i, (s.phase i).isOver = true) ∧ ∀ stripe, s.core.holder stripe = none

/-- A request whose call holds a lock is in the process service. -/
theorem Inv.running_of_locked (h : Inv service s) (hlocked : (s.core.phase i).locked = true) :
    ∃ prepared, s.phase i = .running prepared := by
  have hphase := h.phase i
  cases hi : s.phase i with
  | running prepared => exact ⟨prepared, rfl⟩
  | arriving | admitted | entered | rejected =>
    rw [hi] at hphase
    rw [show s.core.phase i = .idle from hphase] at hlocked
    cases hlocked
  | recording outcome written | answered outcome =>
    rw [hi] at hphase
    rcases hphase with ⟨request, answer, prepared, -, hdone, -⟩ | ⟨-, hidle, -⟩
    · rw [hdone] at hlocked
      cases hlocked
    · rw [hidle] at hlocked
      cases hlocked

/-- When all requests are over, no call is inside its transition. -/
theorem Inv.settled (h : Inv service s) (hheld : ProcessService.Held service.calls s.core)
    (hover : ∀ i, (s.phase i).isOver = true) : Settled s := by
  refine ⟨hover, fun stripe => ?_⟩
  cases hholder : s.core.holder stripe with
  | none => rfl
  | some i =>
    obtain ⟨prepared, hi⟩ := h.running_of_locked (hheld stripe i hholder).1
    have hi' := hover i
    rw [hi] at hi'
    cases hi'

/-- The route of a request has something to do. -/
theorem entered_cases (service : Service ι) (i : ι) :
    (∃ outcome, service.immediate i = some outcome) ∨ (∃ request, service.call? i = some request) ∨
      (service.request i).endpoint = .readiness ∨ (service.request i).endpoint = .metrics := by
  unfold Service.immediate Service.call?
  cases hendpoint : (service.request i).endpoint with
  | process fields =>
    dsimp only
    cases fields.bind ProcessRequest.ofFields? with
    | none => exact Or.inl ⟨_, rfl⟩
    | some body =>
      cases service.provider.getPolicy (service.consumerId i) with
      | error e => exact Or.inl ⟨_, rfl⟩
      | ok policy => exact Or.inr (Or.inl ⟨_, rfl⟩)
  | health | methodNotAllowed | unmatched => exact Or.inl ⟨_, rfl⟩
  | readiness => exact Or.inr (Or.inr (Or.inl rfl))
  | metrics => exact Or.inr (Or.inr (Or.inr rfl))

variable [DecidableEq ι]

/-- The phases after a step outside the process service. -/
theorem phases_move {phase : Phase} (hphase : s'.phase = Function.update s.phase i phase)
    (hcore : s'.core.phase = s.core.phase) :
    s'.phases = Function.update s.phases i (phase, s.core.phase i) := by
  funext j
  rw [System.phases, hphase, hcore]
  by_cases hj : j = i
  · subst hj
    rw [Function.update_self, Function.update_self]
  · rw [Function.update_of_ne hj, Function.update_of_ne hj, System.phases]

/-- A step changes the phases of one request, to lower ones. -/
theorem Step.descends (hstep : Step service s s') :
    ∃ i phases, s'.phases = Function.update s.phases i phases ∧ rank phases < rank (s.phases i) := by
  have hmove : ∀ {i : ι} {phase phase' : Phase}, s.phase i = phase → phase'.rank < phase.rank →
      rank (phase', s.core.phase i) < rank (s.phases i) := by
    intro i phase phase' hi hrank
    rw [rank, rank, System.phases, hi]
    exact Nat.add_lt_add_right hrank _
  cases hstep with
  | @limit i t hi hlimited hclock =>
    refine ⟨i, _, phases_move (phase_limit s i t) rfl, hmove hi ?_⟩
    split <;> simp [Phase.rank]
  | @pass i hi hlimited => exact ⟨i, _, phases_move rfl rfl, hmove hi (by simp [Phase.rank])⟩
  | @enter i hi => exact ⟨i, _, phases_move rfl rfl, hmove hi (by simp [Phase.rank])⟩
  | @respond i outcome hi himmediate => exact ⟨i, _, phases_move rfl rfl, hmove hi (by simp [Phase.rank])⟩
  | @unready i e hi hendpoint hpolicy => exact ⟨i, _, phases_move rfl rfl, hmove hi (by simp [Phase.rank])⟩
  | @probe i policy now found store hi hendpoint hpolicy hget =>
    exact ⟨i, _, phases_move rfl rfl, hmove hi (by simp [Phase.rank])⟩
  | @scrape i hi hendpoint => exact ⟨i, _, phases_move rfl rfl, hmove hi (by simp [Phase.rank])⟩
  | @start i request hi hcall => exact ⟨i, _, phases_move rfl rfl, hmove hi (by simp [Phase.rank])⟩
  | @call i prepared readings core hi hstep hne =>
    obtain ⟨hown, hrank⟩ := hstep.own hne
    refine ⟨i, (.running (prepared || isPreparing (core.phase i)), core.phase i), ?_, ?_⟩
    · funext j
      rw [System.phases, phase_moveTo, core_moveTo, core_withCore, phase_withCore]
      by_cases hj : j = i
      · subst hj
        rw [Function.update_self, Function.update_self]
      · rw [Function.update_of_ne hj, Function.update_of_ne hj, hown, Function.update_of_ne hj, System.phases]
    · rw [rank, rank, System.phases, hi]
      exact Nat.add_lt_add_left hrank _
  | @finish i prepared answer hi hdone => exact ⟨i, _, phases_move rfl rfl, hmove hi (by simp [Phase.rank])⟩
  | @record i outcome written samples hi hsamples =>
    have hlt := (List.getElem?_eq_some_iff.mp hsamples).1
    have hle := length_writes_le service i outcome
    refine ⟨i, _, phases_move rfl rfl, hmove hi ?_⟩
    simp only [Phase.rank]
    omega
  | @answer i outcome written hi hlength => exact ⟨i, _, phases_move rfl rfl, hmove hi (by simp [Phase.rank])⟩

/-- The call of a request that is in the process service can go on there. -/
theorem step_of_canStep {prepared : Bool} {t : Time} (hi : s.phase i = .running prepared)
    (hstep : ProcessService.CanStep service.calls s.core i t) : ∃ s', Step service s s' := by
  obtain ⟨readings, core, hstep, -, hne⟩ := hstep
  exact ⟨_, Step.call hi hstep hne⟩

/-- There is no deadlock. -/
theorem Inv.progress (h : Inv service s) (hheld : ProcessService.Held service.calls s.core) :
    Settled s ∨ ∃ s', Step service s s' := by
  by_cases hover : ∀ i, (s.phase i).isOver = true
  · exact Or.inl (h.settled hheld hover)
  refine Or.inr ?_
  obtain ⟨i, hnot⟩ := not_forall.mp hover
  cases hi : s.phase i with
  | arriving =>
    cases hlimited : service.limited i with
    | true => exact ⟨_, Step.limit hi hlimited (le_refl _)⟩
    | false => exact ⟨_, Step.pass hi hlimited⟩
  | admitted => exact ⟨_, Step.enter hi⟩
  | entered =>
    rcases entered_cases service i with ⟨outcome, himmediate⟩ | ⟨request, hcall⟩ | hendpoint | hendpoint
    · exact ⟨_, Step.respond hi himmediate⟩
    · exact ⟨_, Step.start hi hcall⟩
    · cases hpolicy : service.defaultPolicy with
      | error e => exact ⟨_, Step.unready hi hendpoint hpolicy⟩
      | ok policy => exact ⟨_, Step.probe hi hendpoint hpolicy (Eq.refl (s.core.store.get readinessProbe 0))⟩
    · exact ⟨_, Step.scrape hi hendpoint⟩
  | running prepared =>
    rcases ProcessService.canStep_or_waiting service.calls s.core i 0 with hdone | hstep | ⟨_, j, -, hholder⟩
    · cases hcore : s.core.phase i with
      | done answer => exact ⟨_, Step.finish hi hcore⟩
      | idle | preparing | waiting _ | holding _ | deciding _ _ | writing _ _ | releasing _ =>
        rw [hcore] at hdone
        cases hdone
    · exact step_of_canStep hi hstep
    · -- The request waits for one that holds its stripe lock, and that one is in the process service too.
      obtain ⟨preparedj, hj⟩ := h.running_of_locked (hheld _ j hholder).1
      exact step_of_canStep hj (hheld.canStep hholder 0)
  | recording outcome written =>
    by_cases hlt : written < (service.writes i outcome).length
    · exact ⟨_, Step.record hi (List.getElem?_eq_getElem hlt)⟩
    · exact ⟨_, Step.answer hi (Nat.le_of_not_lt hlt)⟩
  | answered outcome | rejected =>
    rw [hi] at hnot
    exact absurd rfl hnot

/-- However the requests are interleaved, a run has at most 22 steps for each, and one that cannot go on has answered every
    request and left no stripe lock. From every state that a run reaches such an end can still be reached. -/
theorem requests_complete [Fintype ι] (service : Service ι) (clock : Time) (limiter : SlidingWindowRateLimiter)
    (codec : Codec) (ttlSeconds maxEntries : Int) :
    let start := System.start ι clock limiter (InMemoryRestorationStore.new codec ttlSeconds maxEntries)
    (∀ run : List (System codec ι), (start :: run).IsChain (Step service) → run.length ≤ 22 * Fintype.card ι) ∧
      ∀ s, Relation.ReflTransGen (Step service) start s →
        ((¬ ∃ s', Step service s s') → Settled s) ∧
        ∃ s', Relation.ReflTransGen (Step service) s s' ∧ Settled s' := by
  intro start
  have hdescends : Parties.Descends (Step service) (fun s : System codec ι => s.phases) rank := fun s s' hstep =>
    hstep.descends
  constructor
  · intro run hrun
    have hlength := hdescends.length_le run hrun
    have htotal : Parties.total (fun _ => rank) start.phases = 22 * Fintype.card ι := by
      show Parties.total (fun _ => rank) (fun _ : ι => (Phase.arriving, ProcessService.Phase.idle)) = _
      rw [Parties.total_const, Finset.sum_const, Finset.card_univ, smul_eq_mul, mul_comm]
      rfl
    omega
  · intro s hsteps
    obtain ⟨hinv, hcore⟩ := (Inv.start service clock limiter rfl).steps hsteps
    have hheld := (ProcessService.Held.start service.calls _).steps hcore
    have keeps : ∀ s s' : System codec ι, Inv service s ∧ ProcessService.Held service.calls s.core → Step service s s' →
        Inv service s' ∧ ProcessService.Held service.calls s'.core := by
      rintro s s' ⟨h, hheld⟩ hstep
      refine ⟨h.step hstep, ?_⟩
      rcases h.core_step hstep with hsame | ⟨readings, hcall⟩
      · rw [hsame]
        exact hheld
      · exact hheld.step hcall
    exact ⟨fun hstuck => (hinv.progress hheld).resolve_right hstuck,
      hdescends.reaches keeps (fun s h => h.1.progress h.2) ⟨hinv, hheld⟩⟩

end

end PiiProxy.Http
