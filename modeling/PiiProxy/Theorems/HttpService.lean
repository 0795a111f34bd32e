import PiiProxy.Main
import PiiProxy.Theorems.Completion
import PiiProxy.Theorems.Isolation

/-! # The application runs the process service

What the requests do is a run of the process service, and a client sees the answer of its call there, or one that the
application gives before it. -/

namespace PiiProxy.ProcessService
open InMemoryRestorationStore

section
variable {codec : Codec} {ι : Type} {calls : Calls ι} {s s' : System codec ι} {k : Str} [DecidableEq ι]

/-- A key of no call stays absent. -/
theorem Step.absent {readings : List Time} (hstep : Step calls s readings s') (hkey : ∀ i, calls.key i ≠ k)
    (h : s.store.data.get? k = none) : s'.store.data.get? k = none := by
  have hpurged : ∀ {t} {store : InMemoryRestorationStore codec}, Purges t s.store store → store.data.get? k = none := by
    intro t store hpurges
    refine Option.eq_none_iff_forall_ne_some.mpr fun p hp => ?_
    have hback := hpurges.back hp
    rw [h] at hback
    cases hback
  cases hstep with
  | reject | prepare | prepareFails | acquire | decide | refuse | release => exact h
  | @lookup i now found store hi hne hget | @lookupFails i now e store hi hne hget =>
    have hpurges := purges_get s.store (calls.key i) now
    rw [hget] at hpurges
    exact hpurged hpurges
  | @read i prepared evictAt readAt current store hi hle hread
  | @readFails i prepared evictAt readAt e store hi hle hread =>
    have hpurges := purges_transitionRead s.store (calls.key i) hle
    rw [hread] at hpurges
    exact hpurged hpurges
  | @write i current state writeAt store hi hwrite =>
    refine Option.eq_none_iff_forall_ne_some.mpr fun p hp => ?_
    change store.data.get? k = some p at hp
    rw [transitionWrite_ok hwrite] at hp
    rcases get?_of_put hp with ⟨hk, -⟩ | hget
    · exact hkey i hk.symm
    · rw [h] at hget
      cases hget
  | @writeFails i current state writeAt e store hi hwrite =>
    have hkept := transitionWrite_error (congrArg Prod.fst hwrite)
    rw [hwrite] at hkept
    change store.data.get? k = none
    rw [show store = s.store from hkept]
    exact h

/-- Only calls that have begun are in the log. -/
theorem Step.logged {readings : List Time} (hstep : Step calls s readings s')
    (h : ∀ e ∈ s.log, s.phase e.call ≠ .idle) : ∀ e ∈ s'.log, s'.phase e.call ≠ .idle := by
  obtain ⟨i, phase, hphase, hrank⟩ := hstep.descends
  have hbegun : ∀ j, s.phase j ≠ .idle ∨ j = i → s'.phase j ≠ .idle := by
    intro j hj
    rw [hphase]
    by_cases hji : j = i
    · subst hji
      rw [Function.update_self]
      rintro rfl
      exact absurd hrank (by cases s.phase j <;> simp [Phase.rank])
    · rw [Function.update_of_ne hji]
      exact hj.resolve_right hji
  have hlog : s'.log = s.log ∨ ∃ e, s'.log = s.log ++ [e] ∧ s'.phase e.call ≠ .idle := by
    cases hstep with
    | refuse | write => exact Or.inr ⟨_, rfl, by simp⟩
    | reject | lookup | lookupFails | prepare | prepareFails | acquire | read | readFails | decide | writeFails | release =>
      exact Or.inl rfl
  rcases hlog with hlog | ⟨e, hlog, he⟩
  · rw [hlog]
    exact fun e he => hbegun e.call (Or.inl (h e he))
  · rw [hlog]
    intro e' he'
    rcases List.mem_append.mp he' with he' | he'
    · exact hbegun e'.call (Or.inl (h e' he'))
    · obtain rfl := List.mem_singleton.mp he'
      exact he

theorem logged_of_steps {store : InMemoryRestorationStore codec}
    (hsteps : Relation.ReflTransGen (fun s s' => ∃ readings, Step calls s readings s') (System.start ι store) s) :
    ∀ e ∈ s.log, s.phase e.call ≠ .idle := by
  induction hsteps with
  | refl => rintro e ⟨⟩
  | tail _ hstep ih =>
    obtain ⟨readings, hstep⟩ := hstep
    exact hstep.logged ih

end

end PiiProxy.ProcessService

namespace PiiProxy.Http
open Api

theorem stateKey_ne_readinessProbe (digests : Digests) (consumerId payloadId : Str) :
    ProcessService.stateKey digests consumerId payloadId ≠ readinessProbe := by
  intro h
  have hcolon : ':' ∈ readinessProbe := by
    rw [← h, ProcessService.stateKey]
    exact List.mem_append_right _ List.mem_cons_self
  revert hcolon
  decide

section
variable {codec : Codec} {ι : Type} {service : Service ι} {s s' : System codec ι} {i : ι} {outcome : Outcome}

theorem call?_of_immediate (h : service.immediate i = some outcome) : service.call? i = none := by
  unfold Service.immediate at h
  unfold Service.call?
  cases hendpoint : (service.request i).endpoint with
  | process fields =>
    rw [hendpoint] at h
    dsimp only at h ⊢
    cases hbody : fields.bind ProcessRequest.ofFields? with
    | none => rfl
    | some body =>
      rw [hbody] at h
      dsimp only at h ⊢
      cases hpolicy : service.provider.getPolicy (service.consumerId i) with
      | error e => rfl
      | ok policy =>
        rw [hpolicy] at h
        cases h
  | health | readiness | metrics | methodNotAllowed | unmatched => rfl

/-- What a route answers at once, by its endpoint. -/
theorem immediate_cases (h : service.immediate i = some outcome) :
    (outcome = .invalidBody ∨
        ∃ e, outcome = .raised (.notAllowed e) ∧ service.provider.getPolicy (service.consumerId i) = .error e) ∨
      outcome = .health ∧ (service.request i).endpoint = .health ∨
      (∃ method path, outcome = .unrouted 405 ∧ (service.request i).endpoint = .methodNotAllowed method path) ∨
      ∃ method path statusCode,
        outcome = .unrouted statusCode ∧ (service.request i).endpoint = .unmatched method path statusCode := by
  unfold Service.immediate at h
  cases hendpoint : (service.request i).endpoint with
  | process fields =>
    rw [hendpoint] at h
    dsimp only at h
    cases hbody : fields.bind ProcessRequest.ofFields? with
    | none =>
      rw [hbody] at h
      exact Or.inl (Or.inl (Option.some.inj h).symm)
    | some body =>
      rw [hbody] at h
      dsimp only at h
      cases hpolicy : service.provider.getPolicy (service.consumerId i) with
      | error e =>
        rw [hpolicy] at h
        exact Or.inl (Or.inr ⟨e, (Option.some.inj h).symm, rfl⟩)
      | ok policy =>
        rw [hpolicy] at h
        cases h
  | health =>
    rw [hendpoint] at h
    exact Or.inr (Or.inl ⟨(Option.some.inj h).symm, rfl⟩)
  | readiness | metrics =>
    rw [hendpoint] at h
    cases h
  | methodNotAllowed method path =>
    rw [hendpoint] at h
    exact Or.inr (Or.inr (Or.inl ⟨method, path, (Option.some.inj h).symm, rfl⟩))
  | unmatched method path statusCode =>
    rw [hendpoint] at h
    exact Or.inr (Or.inr (Or.inr ⟨method, path, statusCode, (Option.some.inj h).symm, rfl⟩))

/-- How the outcome of a request stands to its call of the process service. -/
def Ended (service : Service ι) (core : ProcessService.Phase) (i : ι) (outcome : Outcome) : Prop :=
  (∃ request answer prepared,
      service.call? i = some request ∧ core = .done answer ∧ outcome = outcomeOf answer prepared) ∨
    service.call? i = none ∧ core = .idle ∧
      (service.immediate i = some outcome ∨
        (service.request i).endpoint = .readiness ∧ (∃ ok, outcome = .ready ok) ∨
        (service.request i).endpoint = .metrics ∧ ∃ snapshot, outcome = .scraped snapshot)

/-- How the phase of a request stands to its call of the process service. -/
def PhaseRight (service : Service ι) (core : ProcessService.Phase) (i : ι) : Phase → Prop
  | .arriving | .admitted | .entered | .rejected => core = .idle
  | .running _ => (service.call? i).isSome
  | .recording outcome _ | .answered outcome => Ended service core i outcome

structure Inv (service : Service ι) (s : System codec ι) : Prop where
  phase : ∀ i, PhaseRight service (s.core.phase i) i (s.phase i)
  probe : s.core.store.data.get? readinessProbe = none

theorem Inv.start (service : Service ι) (clock : Time) (limiter : SlidingWindowRateLimiter)
    {store : InMemoryRestorationStore codec} (hprobe : store.data.get? readinessProbe = none) :
    Inv service (System.start ι clock limiter store) :=
  ⟨fun _ => rfl, hprobe⟩

/-- A request without a call takes no step in the process service. -/
theorem Inv.idle (h : Inv service s) (hnone : service.call? i = none) : s.core.phase i = .idle := by
  have hphase := h.phase i
  cases hi : s.phase i with
  | arriving | admitted | entered | rejected =>
    rw [hi] at hphase
    exact hphase
  | running prepared =>
    rw [hi] at hphase
    change (service.call? i).isSome = true at hphase
    rw [hnone] at hphase
    cases hphase
  | recording outcome written | answered outcome =>
    rw [hi] at hphase
    rcases hphase with ⟨request, answer, prepared, hrequest, -⟩ | ⟨-, hidle, -⟩
    · rw [hnone] at hrequest
      cases hrequest
    · exact hidle

/-- The probe finds nothing, and changes nothing. -/
theorem Inv.probe_spec (h : Inv service s) {now : Time} {found : Except PIIProxyError (Option RestorationState)}
    {store : InMemoryRestorationStore codec} (hget : s.core.store.get readinessProbe now = (found, store)) :
    found = .ok none ∧ store = s.core.store := by
  have habsent : s.core.store.get readinessProbe now = (.ok none, s.core.store) := by
    rw [InMemoryRestorationStore.get, h.probe]
  rw [habsent] at hget
  exact ⟨(Prod.mk.inj hget).1.symm, (Prod.mk.inj hget).2.symm⟩

variable [DecidableEq ι]

/-- A step of a request that leaves the process service alone. -/
theorem Inv.move {phase : Phase} (h : Inv service s) (hcore : s'.core = s.core)
    (hphase : s'.phase = Function.update s.phase i phase) (hright : PhaseRight service (s.core.phase i) i phase) :
    Inv service s' := by
  refine ⟨fun j => ?_, by rw [hcore]; exact h.probe⟩
  rw [hcore, hphase]
  by_cases hj : j = i
  · subst hj
    rw [Function.update_self]
    exact hright
  · rw [Function.update_of_ne hj]
    exact h.phase j

theorem Inv.step (h : Inv service s) (hstep : Step service s s') : Inv service s' := by
  have hphase := h.phase
  cases hstep with
  | @limit i t hi hlimited hclock =>
    have hidle := hphase i
    rw [hi] at hidle
    refine h.move rfl (phase_limit s i t) ?_
    split
    · exact hidle
    · exact hidle
  | @pass i hi hlimited =>
    have hidle := hphase i
    rw [hi] at hidle
    exact h.move rfl rfl hidle
  | @enter i hi =>
    have hidle := hphase i
    rw [hi] at hidle
    exact h.move rfl rfl hidle
  | @respond i outcome hi himmediate =>
    have hidle := hphase i
    rw [hi] at hidle
    exact h.move rfl rfl (Or.inr ⟨call?_of_immediate himmediate, hidle, Or.inl himmediate⟩)
  | @unready i e hi hendpoint hpolicy =>
    have hidle := hphase i
    rw [hi] at hidle
    refine h.move rfl rfl (Or.inr ⟨?_, hidle, Or.inr (Or.inl ⟨hendpoint, false, rfl⟩)⟩)
    rw [Service.call?, hendpoint]
  | @probe i policy now found store hi hendpoint hpolicy hget =>
    have hidle := hphase i
    rw [hi] at hidle
    obtain ⟨-, rfl⟩ := h.probe_spec hget
    refine h.move rfl rfl (Or.inr ⟨?_, hidle, Or.inr (Or.inl ⟨hendpoint, found.isOk, rfl⟩)⟩)
    rw [Service.call?, hendpoint]
  | @scrape i hi hendpoint =>
    have hidle := hphase i
    rw [hi] at hidle
    refine h.move rfl rfl (Or.inr ⟨?_, hidle, Or.inr (Or.inr ⟨hendpoint, s.metrics, rfl⟩)⟩)
    rw [Service.call?, hendpoint]
  | @start i request hi hcall =>
    refine h.move rfl rfl ?_
    show (service.call? i).isSome = true
    rw [hcall]
    rfl
  | @call i prepared readings core hi hstep hne =>
    have hcall := hphase i
    rw [hi] at hcall
    obtain ⟨hown, -⟩ := hstep.own hne
    refine ⟨fun j => ?_, hstep.absent (fun i => stateKey_ne_readinessProbe _ _ _) h.probe⟩
    rw [phase_moveTo, core_moveTo, core_withCore, phase_withCore]
    by_cases hj : j = i
    · subst hj
      rw [Function.update_self]
      exact hcall
    · rw [Function.update_of_ne hj, hown, Function.update_of_ne hj]
      exact hphase j
  | @finish i prepared answer hi hdone =>
    have hcall := hphase i
    rw [hi] at hcall
    obtain ⟨request, hrequest⟩ := Option.isSome_iff_exists.mp hcall
    exact h.move rfl rfl (Or.inl ⟨request, answer, prepared, hrequest, hdone, rfl⟩)
  | @record i outcome written samples hi hsamples =>
    have hended := hphase i
    rw [hi] at hended
    exact h.move rfl rfl hended
  | @answer i outcome written hi hlength =>
    have hended := hphase i
    rw [hi] at hended
    exact h.move rfl rfl hended

/-- A step of a request is none of the process service, or one. -/
theorem Inv.core_step (h : Inv service s) (hstep : Step service s s') :
    s'.core = s.core ∨ ∃ readings, ProcessService.Step service.calls s.core readings s'.core := by
  cases hstep with
  | @probe i policy now found store hi hendpoint hpolicy hget =>
    obtain ⟨-, rfl⟩ := h.probe_spec hget
    exact Or.inl rfl
  | @call i prepared readings core hi hstep hne => exact Or.inr ⟨readings, hstep⟩
  | limit | pass | enter | respond | unready | scrape | start | finish | record | answer => exact Or.inl rfl

/-- What any number of steps preserves, and the run of the process service that they are. -/
theorem Inv.steps (h : Inv service s) (hsteps : Relation.ReflTransGen (Step service) s s') :
    Inv service s' ∧
      Relation.ReflTransGen (fun core core' => ∃ readings, ProcessService.Step service.calls core readings core')
        s.core s'.core := by
  induction hsteps with
  | refl => exact ⟨h, .refl⟩
  | tail _ hstep ih =>
    obtain ⟨hinv, hcore⟩ := ih
    refine ⟨hinv.step hstep, ?_⟩
    rcases hinv.core_step hstep with hsame | hcall
    · rw [hsame]
      exact hcore
    · exact hcore.tail hcall

end

/-! ### Runs of the application -/

section
variable {codec : Codec} {ι : Type} {service : Service ι} {s : System codec ι} {i : ι} [DecidableEq ι]

/-- When all requests are in the process service, what it can do the application can do. -/
theorem steps_of_core {core : ProcessService.System codec ι} (hrunning : ∀ i, ∃ prepared, s.phase i = .running prepared)
    (hcore : Relation.ReflTransGen (fun core core' => ∃ readings, ProcessService.Step service.calls core readings core')
      s.core core) :
    ∃ s', Relation.ReflTransGen (Step service) s s' ∧ s'.core = core ∧ ∀ i, ∃ prepared, s'.phase i = .running prepared := by
  induction hcore with
  | refl => exact ⟨s, .refl, rfl, hrunning⟩
  | tail _ hstep ih =>
    obtain ⟨s', hsteps, rfl, hrunning'⟩ := ih
    obtain ⟨readings, hstep⟩ := hstep
    obtain ⟨i, phase, hphase, hrank⟩ := hstep.descends
    obtain ⟨prepared, hi⟩ := hrunning' i
    have hne : phase ≠ s'.core.phase i := fun heq => absurd hrank (by rw [heq]; exact lt_irrefl _)
    refine ⟨_, hsteps.tail (.call hi hstep (by rw [hphase, Function.update_self]; exact hne)), rfl, fun j => ?_⟩
    by_cases hj : j = i
    · subst hj
      exact ⟨_, Function.update_self _ _ _⟩
    · obtain ⟨preparedj, hj'⟩ := hrunning' j
      exact ⟨preparedj, (Function.update_of_ne hj _ _).trans hj'⟩

/-- A request whose route is over can have its response. -/
theorem steps_of_recording {outcome : Outcome} {written : Nat} (hi : s.phase i = .recording outcome written) :
    ∃ s', Relation.ReflTransGen (Step service) s s' ∧ s'.core = s.core ∧ s'.phase i = .answered outcome := by
  generalize hleft : (service.writes i outcome).length - written = left
  induction left generalizing s written with
  | zero => exact ⟨_, .single (.answer hi (by omega)), rfl, Function.update_self _ _ _⟩
  | succ left ih =>
    have hlt : written < (service.writes i outcome).length := by omega
    have hstep := Step.record hi (List.getElem?_eq_getElem hlt)
    have hnext : ((s.write (service.writes i outcome)[written]).moveTo i (.recording outcome (written + 1))).phase i =
        .recording outcome (written + 1) := Function.update_self _ _ _
    obtain ⟨s', hsteps, hcore, hanswered⟩ := ih hnext (by omega)
    exact ⟨s', .head hstep hsteps, hcore, hanswered⟩

end

theorem calls_exampleService : exampleService.calls = ProcessService.exchange := by
  have hrequest : ∀ i, exampleService.calls.request i = ProcessService.exchange.request i := by
    intro i
    cases i <;> rfl
  exact congrArg (fun request => { ProcessService.exchange with request := request }) (funext hrequest)

def exampleStart : System Codec.plain Bool :=
  System.start Bool 0 (SlidingWindowRateLimiter.new 2 1) (InMemoryRestorationStore.new Codec.plain 60 10)

/-- Both are admitted, enter the process service, and take their steps there; then the second is answered. -/
theorem exampleService_answers : ∃ s, Relation.ReflTransGen (Step exampleService) exampleStart s ∧
    ∃ prepared, s.phase true = .answered (.processed ⟨"a@b.ru".toList, .demask, 1, ["EMAIL".toList]⟩ prepared) := by
  obtain ⟨core, hcalm, hdone⟩ := ProcessService.exchange_runs
  have hcore : Relation.ReflTransGen
      (fun core core' => ∃ readings, ProcessService.Step exampleService.calls core readings core') exampleStart.core core := by
    rw [calls_exampleService]
    refine Relation.ReflTransGen.mono ?_ _ _ hcalm
    rintro _ _ ⟨readings, -, hstep⟩
    exact ⟨readings, hstep⟩
  have hcall : ∀ i, exampleService.call? i = some (ProcessService.exchange.request i) := by
    intro i
    cases i <;> rfl
  have hfirst : (exampleStart.limiter.allow globalKey 0).1 = true := by decide +kernel
  have hsecond : ((exampleStart.limit false 0).limiter.allow globalKey 0).1 = true := by decide +kernel
  have hadmitted : ∀ i, ((exampleStart.limit false 0).limit true 0).phase i = .admitted := by
    rintro (_ | _) <;> simp [hfirst, hsecond]
  obtain ⟨s₀, hsteps, hsame, hboth⟩ : ∃ s₀, Relation.ReflTransGen (Step exampleService) exampleStart s₀ ∧
      s₀.core = exampleStart.core ∧ ∀ i, ∃ prepared, s₀.phase i = .running prepared := by
    refine ⟨_, (((((Relation.ReflTransGen.single (.limit (i := false) rfl rfl (le_refl 0))).tail
      (.limit (i := true) rfl rfl (le_refl 0))).tail (.enter (hadmitted false))).tail
      (.enter (i := true) (hadmitted true))).tail (.start (i := false) rfl (hcall false))).tail
      (.start (i := true) rfl (hcall true)), rfl, ?_⟩
    rintro (_ | _)
    · exact ⟨false, rfl⟩
    · exact ⟨false, rfl⟩
  rw [← hsame] at hcore
  obtain ⟨s, hcalls, rfl, hrunning⟩ := steps_of_core hboth hcore
  obtain ⟨prepared, htrue⟩ := hrunning true
  obtain ⟨s', hrecorded, -, hanswered⟩ := steps_of_recording
    (s := s.moveTo true (.recording (outcomeOf _ prepared) 0)) (Function.update_self _ _ _)
  exact ⟨s', ((hsteps.trans hcalls).tail (.finish htrue hdone)).trans hrecorded, prepared, hanswered⟩

/-! ### What a client sees -/

section
variable {codec : Codec} {ι : Type} {service : Service ι} {i : ι}

/-- The response of the application to a call of the process service that has the answer. -/
def responseTo (requestId : Str) : ProcessService.Answer → Response
  | .ok out => { statusCode := 200, body := .result out.result, requestId := some requestId }
  | .error e => handle requestId (.service e)

theorem response_outcomeOf (service : Service ι) (i : ι) (answer : ProcessService.Answer) (prepared : Bool) :
    service.response i (outcomeOf answer prepared) = responseTo (service.requestId i) answer := by
  cases answer with
  | error e => rfl
  | ok out => rfl

/-- A call has the policy of the consumer that the headers name, and the texts of the body, which are not empty. -/
theorem call?_eq_some {request : Request} (h : service.call? i = some request) :
    request.policy.consumerId = service.consumerId i ∧
      (service.request i).endpoint = .process (some (request.payload, request.payloadId)) ∧
      request.payload ≠ [] ∧ request.payloadId ≠ [] := by
  unfold Service.call? at h
  split at h
  · rename_i fields hendpoint
    split at h
    · rename_i body policy hbody hpolicy
      obtain rfl := Option.some.inj h
      obtain ⟨pair, rfl, hpair⟩ := Option.bind_eq_some_iff.mp hbody
      refine ⟨FilePolicyProvider.consumerId_of_getPolicy hpolicy, ?_, body.payload_ne_nil, body.payloadId_ne_nil⟩
      rw [hendpoint]
      unfold ProcessRequest.ofFields? at hpair
      split at hpair
      · cases hpair
      · split at hpair
        · cases hpair
        · obtain rfl := Option.some.inj hpair
          rfl
    · cases h
  · cases h

/-- What the process service gets of a request. -/
theorem consumer_calls {request : Request} (h : service.call? i = some request) :
    service.calls.consumer i = service.consumerId i ∧ (service.calls.request i).payloadId = request.payloadId ∧
      (service.calls.request i).payload = request.payload := by
  have hrequest : service.calls.request i = request := by
    show (service.call? i).getD _ = request
    rw [h]
    rfl
  rw [ProcessService.Calls.consumer, hrequest]
  exact ⟨(call?_eq_some h).1, rfl, rfl⟩

/-- The ids that the requests send, under the consumer of their headers. -/
def Service.sources (service : Service ι) : Set Str :=
  {source | ∃ i payload payloadId, (service.request i).endpoint = .process (some (payload, payloadId)) ∧
    ProcessService.keySource (service.consumerId i) payloadId = source}

/-- The result of the process service is the only one that a route has. -/
theorem Ended.processed {core : ProcessService.Phase} {out : ProcessOutcome} {prepared : Bool}
    (h : Ended service core i (.processed out prepared)) :
    ∃ request, service.call? i = some request ∧ core = .done (.ok out) := by
  rcases h with ⟨request, answer, prepared', hrequest, hdone, houtcome⟩ | ⟨-, -, himmediate⟩
  · cases answer with
    | error e => cases houtcome
    | ok out' =>
      obtain ⟨rfl, -⟩ := Outcome.processed.inj houtcome
      exact ⟨request, hrequest, hdone⟩
  · rcases himmediate with himmediate | ⟨-, ok, hready⟩ | ⟨-, snapshot, hscraped⟩
    · rcases immediate_cases himmediate with (h | ⟨e, h, -⟩) | ⟨h, -⟩ | ⟨method, path, h, -⟩ | ⟨method, path, statusCode, h, -⟩
      all_goals cases h
    · cases hready
    · cases hscraped

variable [DecidableEq ι]

/-- Every run of the application is a run of the process service, in which only the requests that have a valid body and
    a policy, and have passed the limiter, take part. Each of these that has been answered got the answer of its call
    there; the others got what the application says before the call. -/
theorem http_refines (service : Service ι) (clock : Time) (limiter : SlidingWindowRateLimiter) (ttlSeconds maxEntries : Int)
    (s : System codec ι)
    (hsteps : Relation.ReflTransGen (Step service)
      (System.start ι clock limiter (InMemoryRestorationStore.new codec ttlSeconds maxEntries)) s) :
    Relation.ReflTransGen (fun core core' => ∃ readings, ProcessService.Step service.calls core readings core')
        (ProcessService.System.start ι (InMemoryRestorationStore.new codec ttlSeconds maxEntries)) s.core ∧
      ∀ i,
        (s.phase i = .rejected ∨ service.call? i = none → s.core.phase i = .idle) ∧
        ∀ outcome, s.phase i = .answered outcome →
          match service.call? i with
          | some _ => ∃ answer, s.core.phase i = .done answer ∧
              service.response i outcome = responseTo (service.requestId i) answer
          | none => service.immediate i = some outcome ∨
              (service.request i).endpoint = .readiness ∧ (∃ ok, outcome = .ready ok) ∨
              (service.request i).endpoint = .metrics ∧ ∃ snapshot, outcome = .scraped snapshot := by
  obtain ⟨hinv, hcore⟩ := (Inv.start service clock limiter rfl).steps hsteps
  refine ⟨hcore, fun i => ⟨?_, fun outcome hi => ?_⟩⟩
  · rintro (hi | hnone)
    · have hphase := hinv.phase i
      rw [hi] at hphase
      exact hphase
    · exact hinv.idle hnone
  · have hphase := hinv.phase i
    rw [hi] at hphase
    rcases hphase with ⟨request, answer, prepared, hrequest, hdone, rfl⟩ | ⟨hnone, -, himmediate⟩
    · rw [hrequest]
      exact ⟨answer, hdone, response_outcomeOf service i answer prepared⟩
    · rw [hnone]
      exact himmediate

/-- The second request gets the answer that its call has. -/
theorem http_refines_example : ∃ s : System Codec.plain Bool,
    Relation.ReflTransGen (fun core core' => ∃ readings, ProcessService.Step exampleService.calls core readings core')
        (ProcessService.System.start Bool (InMemoryRestorationStore.new Codec.plain 60 10)) s.core ∧
      ∃ answer out prepared, s.core.phase true = .done answer ∧ s.phase true = .answered (.processed out prepared) ∧
        exampleService.response true (.processed out prepared) = responseTo (exampleService.requestId true) answer := by
  obtain ⟨s, hsteps, prepared, hanswered⟩ := exampleService_answers
  obtain ⟨hcore, hrequests⟩ := http_refines exampleService 0 (.new 2 1) 60 10 s hsteps
  obtain ⟨answer, hdone, hresponse⟩ := (hrequests true).2 _ hanswered
  exact ⟨s, hcore, answer, _, prepared, hdone, hanswered, hresponse⟩

/-! ### Consumers are kept apart, from header to body -/

/-- An original text that a response has was sent before, under the same id, by a request whose header names the same
    consumer; the request that gets it has sent the mask that was made of it. -/
theorem http_isolation (service : Service ι) (clock : Time) (limiter : SlidingWindowRateLimiter)
    (ttlSeconds maxEntries : Int) (collisionFree : Set.InjOn service.digests.sha256 service.sources) (s : System codec ι)
    (hsteps : Relation.ReflTransGen (Step service)
      (System.start ι clock limiter (InMemoryRestorationStore.new codec ttlSeconds maxEntries)) s)
    (i : ι) (out : ProcessOutcome) (prepared : Bool) (hanswered : s.phase i = .answered (.processed out prepared))
    (hdemask : out.operation = .demask) :
    ∃ j payloadId record,
      service.consumerId j = service.consumerId i ∧
        (service.request j).endpoint = .process (some (out.result, payloadId)) ∧
        (service.request i).endpoint = .process (some (record.maskedText, payloadId)) ∧
        ⟨j, none, .ok record⟩ ∈ s.core.log ∧ record.originalText = out.result := by
  obtain ⟨hinv, hcore⟩ := (Inv.start service clock limiter rfl).steps hsteps
  have hphase := hinv.phase i
  rw [hanswered] at hphase
  obtain ⟨request, hrequest, hdone⟩ := hphase.processed
  obtain ⟨hconsumer, hpayloadId, hpayload⟩ := consumer_calls hrequest
  have hstart : ProcessService.SystemSourced service.calls (service.consumerId i)
      (ProcessService.System.start ι (InMemoryRestorationStore.new codec ttlSeconds maxEntries)) :=
    ⟨by rintro k p r ⟨⟩, fun _ => trivial⟩
  have hsourced := hstart.steps hcore
  have hdemasked := hsourced.phase i
  rw [hdone] at hdemasked
  obtain ⟨before, after, current, state, hlog, hcurrent, hcreated, horiginal, hmask⟩ := hdemasked out rfl hdemask
  obtain ⟨j, record, hcreated⟩ := hcreated (hcurrent.trans hconsumer)
  have hevent : ⟨j, none, .ok record⟩ ∈ s.core.log := by
    rw [hlog]
    exact List.mem_append_left _ hcreated.event
  obtain ⟨requestj, hrequestj⟩ : ∃ request, service.call? j = some request := by
    cases hcall : service.call? j with
    | some request => exact ⟨request, rfl⟩
    | none => exact absurd (hinv.idle hcall) (ProcessService.logged_of_steps hcore _ hevent)
  obtain ⟨hconsumerj, hpayloadIdj, hpayloadj⟩ := consumer_calls hrequestj
  have hendpoint := (call?_eq_some hrequest).2.1
  have hendpointj := (call?_eq_some hrequestj).2.1
  have hkey := hcreated.key
  obtain ⟨hsame, hid⟩ := ProcessService.stateKey_inj service.digests hkey fun hsha => by
    refine collisionFree ⟨j, _, _, hendpointj, ?_⟩ ⟨i, _, _, hendpoint, ?_⟩ hsha
    · rw [← hconsumerj, ← hpayloadIdj]
      rfl
    · rw [← hconsumer, ← hpayloadId]
      rfl
  have hresult : record.originalText = out.result := hcreated.originalText.symm.trans horiginal
  refine ⟨j, request.payloadId, record, ?_, ?_, ?_, hevent, hresult⟩
  · exact hconsumerj.symm.trans (hsame.trans hconsumer)
  · rw [hendpointj, ← hresult, hcreated.prepared.originalText, ← hpayloadj, ← hpayloadIdj, ← hpayloadId]
    exact congrArg (fun id => Endpoint.process (some ((service.calls.request j).payload, id))) hid
  · rw [hendpoint, ← hcreated.maskedText, hmask, hpayload]

/-- The original that the second request gets was sent by the first. -/
theorem http_isolation_example : ∃ s : System Codec.plain Bool,
    (∃ out prepared, s.phase true = .answered (.processed out prepared) ∧ out.result = "a@b.ru".toList) ∧
      ∃ j payloadId record, exampleService.consumerId j = exampleService.consumerId true ∧
        (exampleService.request j).endpoint = .process (some ("a@b.ru".toList, payloadId)) ∧
        (exampleService.request true).endpoint = .process (some (record.maskedText, payloadId)) ∧
        ⟨j, none, .ok record⟩ ∈ s.core.log ∧ record.originalText = "a@b.ru".toList := by
  obtain ⟨s, hsteps, prepared, hanswered⟩ := exampleService_answers
  have collisionFree : Set.InjOn exampleService.digests.sha256 exampleService.sources := by
    rintro _ ⟨i, payload, payloadId, hi, rfl⟩ _ ⟨j, payload', payloadId', hj, rfl⟩ -
    obtain ⟨-, rfl⟩ := Prod.mk.inj (Option.some.inj (Endpoint.process.inj hi))
    obtain ⟨-, rfl⟩ := Prod.mk.inj (Option.some.inj (Endpoint.process.inj hj))
    rfl
  exact ⟨s, ⟨_, prepared, hanswered, rfl⟩, http_isolation exampleService 0 (.new 2 1) 60 10 collisionFree s hsteps true
    ⟨"a@b.ru".toList, .demask, 1, ["EMAIL".toList]⟩ prepared hanswered rfl⟩

end

end PiiProxy.Http
