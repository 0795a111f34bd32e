import PiiProxy.Theorems.HttpService

/-! # What an error tells a client

The messages of all error responses are fixed texts, but for the consumer id that the client has sent itself. -/

namespace PiiProxy

/-- The exception is none of the domain errors. -/
def PIIProxyError.foreign : PIIProxyError → Bool
  | other _ => true
  | invalidPayload _ | processing _ | serviceOverloaded _ _ => false

/-- The detectors raise no domain errors. -/
def DetectionEngine.Foreign (engine : DetectionEngine) : Prop :=
  ∀ detector ∈ engine.detectors, ∀ text context e, detector text context = .error e → e.foreign = true

/-- The detectors that always answer raise nothing at all. -/
theorem regexOnly_foreign (today : Date) : (DetectionEngine.regexOnly today).Foreign := by
  intro detector hdetector text context e h
  obtain rfl := List.mem_singleton.mp hdetector
  obtain ⟨entities, hentities⟩ := RegexDetector.detect_isOk today text
  change RegexDetector.detect today text = .error e at h
  rw [hentities] at h
  cases h

theorem foreign_of_extend {text : Str} {context : DetectionContext} {detectors : List PIIDetector}
    {found : List PIIEntity} {e : PIIProxyError}
    (hforeign : ∀ detector ∈ detectors, ∀ e, detector text context = .error e → e.foreign = true)
    (h : detectors.foldlM (DetectionEngine.extend text context) found = .error e) : e.foreign = true := by
  induction detectors generalizing found with
  | nil => cases h
  | cons detector detectors ih =>
    rw [List.foldlM_cons, DetectionEngine.extend] at h
    cases hdetector : detector text context with
    | error e' =>
      rw [hdetector] at h
      obtain rfl := Except.error.inj h
      exact hforeign detector List.mem_cons_self e' hdetector
    | ok more =>
      rw [hdetector] at h
      exact ih (fun d hd => hforeign d (List.mem_cons_of_mem detector hd)) h

theorem foreign_of_candidates {engine : DetectionEngine} (hforeign : engine.Foreign) {text : Str}
    {context : DetectionContext} {e : PIIProxyError} (h : engine.candidates text context = .error e) :
    e.foreign = true :=
  foreign_of_extend (fun detector hdetector e => hforeign detector hdetector text context e) h

namespace MaskingEngine
open Masking

theorem foreign_of_maskEdges {digits value : Str} {acc : Str × Nat} {e : PIIProxyError}
    (h : value.foldlM (maskEdgeChar digits) acc = .error e) : e.foreign = true := by
  induction value generalizing acc with
  | nil => cases h
  | cons c value ih =>
    rw [List.foldlM_cons] at h
    cases hchar : maskEdgeChar digits acc c with
    | ok acc' =>
      rw [hchar] at h
      exact ih h
    | error e' =>
      rw [hchar] at h
      obtain rfl := Except.error.inj h
      unfold maskEdgeChar at hchar
      dsimp only at hchar
      split at hchar
      · split at hchar
        · split at hchar
          · cases hchar
          · obtain rfl := Except.error.inj hchar
            rfl
        · cases hchar
      · cases hchar

theorem foreign_of_strategy {strategy : MaskingStrategy} {token : Str} {entity : PIIEntity} {e : PIIProxyError}
    (h : strategy.mask token entity = .error e) : e.foreign = true := by
  cases strategy with
  | fullMask | tokenize | synthetic => cases h
  | partialMask =>
    rw [MaskingStrategy.mask, PartialMaskStrategy.mask] at h
    split at h
    · cases h
    · split at h
      · unfold maskNumericEdges at h
        dsimp only at h
        split at h
        · cases h
        · cases hfold : entity.value.foldlM (maskEdgeChar (entity.value.filter isdecimal)) ([], 0) with
          | ok acc =>
            rw [hfold] at h
            cases h
          | error e' =>
            rw [hfold] at h
            obtain rfl := Except.error.inj h
            exact foreign_of_maskEdges hfold
      · split at h
        · cases h
        · split at h
          · cases h
          · cases h

end MaskingEngine

namespace ProcessService
open InMemoryRestorationStore

theorem foreign_of_prepareMask {digests : Digests} {around : Surroundings} {payload payloadId : Str}
    {policy : ConsumerPolicy} {e : PIIProxyError} (hforeign : around.engine.Foreign)
    (h : prepareMask digests around payload payloadId policy = .error e) : e.foreign = true := by
  cases hfound : around.engine.candidates payload { consumerId := policy.consumerId } with
  | error e' =>
    rw [prepareMask, DetectionEngine.detect_eq, hfound] at h
    obtain rfl := Except.error.inj h
    exact foreign_of_candidates hforeign hfound
  | ok candidates =>
    rw [prepareMask_eq digests hfound] at h
    cases hmask : MaskingEngine.mask around.tokenHex payload policy.masking (protectedEntities policy candidates)
        policy.contextRules with
    | ok masking =>
      rw [hmask] at h
      cases h
    | error e' =>
      rw [hmask] at h
      obtain rfl := Except.error.inj h
      obtain ⟨entity, -, token, hstrategy⟩ := MaskingEngine.mask_error hmask
      exact MaskingEngine.foreign_of_strategy hstrategy

/-- The errors that a call with a payload and an id can end with. -/
inductive Expected : PIIProxyError → Prop
  | mismatch : Expected mismatch
  | processing (message : String) : Expected (.processing message)
  | capacityExceeded : Expected capacityExceeded
  | foreign {e : PIIProxyError} (h : e.foreign = true) : Expected e

theorem expected_of_transition {digests : Digests} {around : Surroundings} {current prepared : Option RestorationState}
    {payload payloadId : Str} {policy : ConsumerPolicy} {e : PIIProxyError} (hforeign : around.engine.Foreign)
    (h : transition digests around current payload payloadId policy prepared = .error e) : Expected e := by
  have hdemask : ∀ {record : RestorationState}, demaskState record policy = .error e → Expected e := by
    intro record h
    unfold demaskState at h
    split at h
    · obtain rfl := Except.error.inj h
      exact .processing _
    · cases h
  unfold transition at h
  cases current with
  | none =>
    cases prepared with
    | none => exact .foreign (foreign_of_prepareMask hforeign h)
    | some state => cases h
  | some record =>
    dsimp only at h
    split at h
    · obtain rfl := Except.error.inj h
      exact .mismatch
    · split at h
      · split at h
        · cases h
        · split at h
          · exact hdemask h
          · obtain rfl := Except.error.inj h
            exact .mismatch
      · split at h
        · cases h
        · obtain rfl := Except.error.inj h
          exact .mismatch

theorem foreign_of_get {codec : Codec} {store : InMemoryRestorationStore codec} {k : Str} {now : Time}
    {e : PIIProxyError} (h : (store.get k now).1 = .error e) : e.foreign = true := by
  unfold InMemoryRestorationStore.get at h
  split at h
  · cases h
  · split at h
    · cases h
    · rename_i expiresAt token hentry hlive
      unfold Codec.decode at h
      split at h
      · cases h
      · obtain rfl := Except.error.inj h
        rfl

section
variable {codec : Codec} {ι : Type} {calls : Calls ι} {s s' : System codec ι}

/-- An answer is an outcome or an expected error, if the call has a payload and an id. -/
def AnswerExpected (calls : Calls ι) (i : ι) (answer : Answer) : Prop :=
  (calls.request i).payload ≠ [] → (calls.request i).payloadId ≠ [] → ∀ e, answer = .error e → Expected e

/-- So is the answer of a call whose transition is over. -/
def PhaseExpected (calls : Calls ι) (i : ι) : Phase → Prop
  | .releasing answer | .done answer => AnswerExpected calls i answer
  | .idle | .preparing | .waiting _ | .holding _ | .deciding _ _ | .writing _ _ => True

theorem answerExpected {i : ι} {e : PIIProxyError} (h : Expected e) : AnswerExpected calls i (.error e) := by
  rintro - - _ ⟨⟩
  exact h

variable [DecidableEq ι]

theorem Step.expected {readings : List Time} (hforeign : ∀ i, (calls.around i).engine.Foreign)
    (h : ∀ i, PhaseExpected calls i (s.phase i)) (hstep : Step calls s readings s') :
    ∀ i, PhaseExpected calls i (s'.phase i) := by
  have hmove : ∀ {i : ι} {phase : Phase}, s'.phase = Function.update s.phase i phase → PhaseExpected calls i phase →
      ∀ j, PhaseExpected calls j (s'.phase j) := by
    intro i phase hphase hright j
    rw [hphase]
    by_cases hj : j = i
    · subst hj
      rw [Function.update_self]
      exact hright
    · rw [Function.update_of_ne hj]
      exact h j
  cases hstep with
  | @reject i hi hempty => exact hmove rfl fun hpayload hid => absurd hempty (by simp [hpayload, hid])
  | @lookup i now found store hi hne hget =>
    refine hmove rfl ?_
    split <;> trivial
  | @lookupFails i now e store hi hne hget =>
    exact hmove rfl (answerExpected (.foreign (foreign_of_get (congrArg Prod.fst hget))))
  | @prepare i state hi hprepare => exact hmove rfl trivial
  | @prepareFails i e hi hprepare =>
    exact hmove rfl (answerExpected (.foreign (foreign_of_prepareMask (hforeign i) hprepare)))
  | @acquire i prepared hi hfree => exact hmove rfl trivial
  | @read i prepared evictAt readAt current store hi hle hread => exact hmove rfl trivial
  | @readFails i prepared evictAt readAt e store hi hle hread =>
    rw [transitionRead_eq] at hread
    exact hmove rfl (answerExpected (.foreign (foreign_of_get (congrArg Prod.fst hread))))
  | @decide i prepared current state hi hdecide => exact hmove rfl trivial
  | @refuse i prepared current e hi hdecide =>
    exact hmove rfl (answerExpected (expected_of_transition (hforeign i) hdecide))
  | @write i current state writeAt store hi hwrite =>
    -- A record that is there has an outcome.
    refine hmove rfl fun _ _ e he => ?_
    change outcomeFromState (some state) = .error e at he
    unfold outcomeFromState at he
    dsimp only at he
    split at he <;> cases he
  | @writeFails i current state writeAt e store hi hwrite =>
    have hfull : e = capacityExceeded := by
      unfold transitionWrite at hwrite
      dsimp only at hwrite
      split at hwrite
      · exact (Except.error.inj (congrArg Prod.fst hwrite)).symm
      · cases hwrite
    subst hfull
    exact hmove rfl (answerExpected .capacityExceeded)
  | @release i answer hi =>
    have hright := h i
    rw [hi] at hright
    exact hmove rfl hright

/-- What any number of steps preserves. -/
theorem expected_of_steps (hforeign : ∀ i, (calls.around i).engine.Foreign) {store : InMemoryRestorationStore codec}
    (hsteps : Relation.ReflTransGen (fun s s' => ∃ readings, Step calls s readings s') (System.start ι store) s) :
    ∀ i, PhaseExpected calls i (s.phase i) := by
  induction hsteps with
  | refl => exact fun _ => trivial
  | tail _ hstep ih =>
    obtain ⟨readings, hstep⟩ := hstep
    exact hstep.expected hforeign ih

end

end ProcessService

namespace Http
open Api

/-- The errors of the application, with their messages. Only the first has a text of a request: the consumer's own. -/
def errorBodies (consumerId : Str) : List (String × Str) :=
  [("CONSUMER_NOT_ALLOWED", "consumer not allowed: ".toList ++ consumerId),
    ("INVALID_PAYLOAD", "payload does not match stored state".toList),
    ("PROCESSING_ERROR", "internal error".toList),
    ("SERVICE_OVERLOADED", "restoration store capacity exceeded".toList),
    ("SERVICE_OVERLOADED", "too many requests".toList),
    ("INTERNAL_ERROR", "internal error".toList)]

/-- An error response has one of those bodies, and says when to retry if the service is overloaded. -/
def FixedError (consumerId : Str) (response : Response) : Prop :=
  ∃ body ∈ errorBodies consumerId, response.body = .error body.1 body.2 ∧
    response.retryAfter = if body.1 = "SERVICE_OVERLOADED" then some 1 else none

theorem fixedError_of_expected (requestId consumerId : Str) {e : PIIProxyError} (h : ProcessService.Expected e) :
    FixedError consumerId (handle requestId (.service e)) := by
  cases h with
  | mismatch => exact ⟨("INVALID_PAYLOAD", "payload does not match stored state".toList), by simp [errorBodies], rfl, rfl⟩
  | processing message => exact ⟨("PROCESSING_ERROR", "internal error".toList), by simp [errorBodies], rfl, rfl⟩
  | capacityExceeded =>
    exact ⟨("SERVICE_OVERLOADED", "restoration store capacity exceeded".toList), by simp [errorBodies], rfl, rfl⟩
  | foreign hforeign =>
    cases e with
    | other message => exact ⟨("INTERNAL_ERROR", "internal error".toList), by simp [errorBodies], rfl, rfl⟩
    | invalidPayload | processing | serviceOverloaded => cases hforeign

section
variable {codec : Codec} {ι : Type} [DecidableEq ι]

end

end Http

end PiiProxy
