import PiiProxy.Detection.Engine
import PiiProxy.Masking.Engine
import PiiProxy.Restoration.Memory

/-! The mask and demask lifecycle of a payload id (`app/processing/process_service.py`). -/

namespace PiiProxy

/-- The hexadecimal digests of `hashlib`: BLAKE2b of 16 bytes (`hash_payload`) and SHA-256. -/
structure Digests where
  hashPayload : Str → Str
  sha256 : Str → Str
  length_sha256 : ∀ s, (sha256 s).length = 64

/-- What a call finds outside the store: the detectors with their answers to it, the tokens that it draws, and
    the time at which it creates a record. -/
structure Surroundings where
  engine : DetectionEngine
  tokenHex : Nat → Str
  utcNow : DateTime

/-- Digests for examples: texts are their own digests, and short texts have different ones of the right length. -/
def Digests.plain : Digests where
  hashPayload := id
  sha256 s := (s ++ List.replicate 64 '-').take 64
  length_sha256 s := by simp

/-- Surroundings for examples: the engine of the regex detector alone. -/
def Surroundings.plain : Surroundings where
  engine := DetectionEngine.regexOnly ⟨2026, 1, 1⟩
  tokenHex _ := "0123456789abcdef".toList
  utcNow := ⟨0⟩

structure ProcessOutcome where
  result : Str
  operation : Operation
  entityCount : Nat
  detectedTypes : List Str
  deriving DecidableEq, Repr

/-- The arguments of `process`. -/
structure Request where
  payload : Str
  payloadId : Str
  policy : ConsumerPolicy

namespace ProcessService

/-- Surroundings for examples: the whole text is an e-mail address. -/
def emailOnly : Surroundings where
  engine := ⟨[fun text _ => .ok [⟨.email, text, 0, text.length, 1, []⟩]]⟩
  tokenHex _ := []
  utcNow := ⟨0⟩

section
variable (digests : Digests)

/-- The text whose digest goes into the key: both ids, with NUL between them. -/
def keySource (consumerId payloadId : Str) : Str := consumerId ++ Char.ofNat 0 :: payloadId

def stateKey (consumerId payloadId : Str) : Str :=
  consumerId ++ ':' :: digests.sha256 (keySource consumerId payloadId)

def Request.key (request : Request) : Str := stateKey digests request.policy.consumerId request.payloadId

theorem consumerId_of_stateKey {consumerId payloadId consumerId' payloadId' : Str}
    (h : stateKey digests consumerId payloadId = stateKey digests consumerId' payloadId') : consumerId = consumerId' := by
  have hlength := congrArg List.length h
  simp only [stateKey, List.length_append, List.length_cons, digests.length_sha256] at hlength
  exact (List.append_inj h (by omega)).1

/-- Equal keys are those of the same ids, or SHA-256 has a collision. -/
theorem stateKey_inj {consumerId payloadId consumerId' payloadId' : Str}
    (h : stateKey digests consumerId payloadId = stateKey digests consumerId' payloadId')
    (hsha : digests.sha256 (keySource consumerId payloadId) = digests.sha256 (keySource consumerId' payloadId') →
      keySource consumerId payloadId = keySource consumerId' payloadId') :
    consumerId = consumerId' ∧ payloadId = payloadId' := by
  obtain rfl := consumerId_of_stateKey digests h
  have hdigest := (List.cons.inj (List.append_cancel_left h)).2
  exact ⟨rfl, (List.cons.inj (List.append_cancel_left (hsha hdigest))).2⟩

/-- The order of `sorted({…})` on texts. -/
def textBefore : Str → Str → Bool
  | [], _ => true
  | _ :: _, [] => false
  | a :: s, b :: t => a < b || a == b && textBefore s t

/-- `sorted({e.type.value for e in entities})` -/
def detectedTypes (entities : List PIIEntity) : List Str :=
  (entities.map fun e => e.type.value).dedup.insertionSort fun s t => textBefore s t = true

/-- The record of a new mask. -/
def newState (around : Surroundings) (payload payloadId : Str) (policy : ConsumerPolicy) (entities : List PIIEntity)
    (masking : MaskingResult) : RestorationState where
  payloadId
  originalHash := digests.hashPayload payload
  originalText := payload
  maskedText := masking.maskedText
  mappings := masking.mappings
  entityCount := entities.length
  detectedTypes := detectedTypes entities
  state := .masked
  createdAt := around.utcNow
  consumerId := policy.consumerId

def prepareMask (around : Surroundings) (payload payloadId : Str) (policy : ConsumerPolicy) :
    Except PIIProxyError RestorationState := do
  let detection ← around.engine.detect payload { consumerId := policy.consumerId }
  let entities := detection.filter fun e => policy.enabledTypes.contains e.type
  let masking ← MaskingEngine.mask around.tokenHex payload policy.masking entities policy.contextRules
  return newState digests around payload payloadId policy entities masking

/-- The entities that the policy protects, of all that the detectors find. -/
def protectedEntities (policy : ConsumerPolicy) (candidates : List PIIEntity) : List PIIEntity :=
  (resolveSpans candidates).filter fun e => policy.enabledTypes.contains e.type

theorem prepareMask_eq {around : Surroundings} {payload : Str} {policy : ConsumerPolicy} {candidates : List PIIEntity}
    (found : around.engine.candidates payload { consumerId := policy.consumerId } = .ok candidates)
    (payloadId : Str) :
    prepareMask digests around payload payloadId policy =
      (MaskingEngine.mask around.tokenHex payload policy.masking (protectedEntities policy candidates)
        policy.contextRules).map
          (newState digests around payload payloadId policy (protectedEntities policy candidates)) := by
  have hdetect : around.engine.detect payload { consumerId := policy.consumerId } = .ok (resolveSpans candidates) := by
    rw [DetectionEngine.detect_eq, found]
    rfl
  rw [prepareMask, hdetect]
  rfl

/-- A record that a call prepares holds its payload, and the mask that the engine makes of it. -/
theorem prepareMask_ok {around : Surroundings} {payload payloadId : Str} {policy : ConsumerPolicy}
    {state : RestorationState} (h : prepareMask digests around payload payloadId policy = .ok state) :
    ∃ candidates masking,
      around.engine.candidates payload { consumerId := policy.consumerId } = .ok candidates ∧
      MaskingEngine.mask around.tokenHex payload policy.masking (protectedEntities policy candidates)
        policy.contextRules = .ok masking ∧
      state = newState digests around payload payloadId policy (protectedEntities policy candidates) masking := by
  cases hfound : around.engine.candidates payload { consumerId := policy.consumerId } with
  | error e =>
    rw [prepareMask, DetectionEngine.detect_eq, hfound] at h
    cases h
  | ok candidates =>
    rw [prepareMask_eq digests hfound] at h
    cases hmask : MaskingEngine.mask around.tokenHex payload policy.masking (protectedEntities policy candidates)
        policy.contextRules with
    | error e =>
      rw [hmask] at h
      cases h
    | ok masking =>
      rw [hmask] at h
      exact ⟨candidates, masking, rfl, hmask, (Except.ok.inj h).symm⟩

/-- What a prepared record has of its call. -/
structure PreparedBy (payload payloadId consumerId : Str) (state : RestorationState) : Prop where
  payloadId_eq : state.payloadId = payloadId
  originalText : state.originalText = payload
  originalHash : state.originalHash = digests.hashPayload payload
  consumerId_eq : state.consumerId = consumerId
  masked : state.state = .masked
  maskedText_ne_nil : payload ≠ [] → state.maskedText ≠ []

theorem prepareMask_spec {around : Surroundings} {payload payloadId : Str} {policy : ConsumerPolicy}
    {state : RestorationState} (h : prepareMask digests around payload payloadId policy = .ok state) :
    PreparedBy digests payload payloadId policy.consumerId state := by
  obtain ⟨candidates, masking, -, hmask, rfl⟩ := prepareMask_ok digests h
  exact ⟨rfl, rfl, rfl, rfl, rfl, MaskingEngine.maskedText_ne_nil hmask⟩

def mismatch : PIIProxyError := .invalidPayload "payload does not match stored state"

def demaskState (current : RestorationState) (policy : ConsumerPolicy) : Except PIIProxyError RestorationState :=
  if !policy.demaskingEnabled then .error (.processing "demasking is disabled for this consumer")
  else .ok { current with state := .demasked }

/-- `_transition`. `around` is what the call finds if it has to prepare the mask here. -/
def transition (around : Surroundings) (current : Option RestorationState) (payload payloadId : Str)
    (policy : ConsumerPolicy) (prepared : Option RestorationState) : Except PIIProxyError RestorationState :=
  match current with
  | none =>
    match prepared with
    | none => prepareMask digests around payload payloadId policy
    | some prepared => .ok prepared
  | some current =>
    if current.consumerId ≠ policy.consumerId then .error mismatch
    else if current.state = .masked then
      if digests.hashPayload payload = current.originalHash then .ok current
      else if payload = current.maskedText then demaskState current policy
      else .error mismatch
    else if payload = current.maskedText then .ok current
    else .error mismatch

end

def outcome (result : Str) (operation : Operation) (state : RestorationState) : ProcessOutcome where
  result
  operation
  entityCount := state.entityCount
  detectedTypes := state.detectedTypes

def outcomeFromState : Option RestorationState → Except PIIProxyError ProcessOutcome
  | none => .error (.processing "restoration state was unexpectedly removed")
  | some state =>
    if state.state = .masked then .ok (outcome state.maskedText .mask state)
    else .ok (outcome state.originalText .demask state)

/-- The readings of the clock that the store makes for one call. -/
structure Readings where
  lookup : Time
  evict : Time
  read : Time
  write : Time

section
variable {codec : Codec} (digests : Digests)

/-- The preparation before the transition, which is skipped when there is a record. -/
def prepareIfNew (around : Surroundings) (request : Request) (found : Option RestorationState) :
    Except PIIProxyError (Option RestorationState) :=
  match found with
  | some _ => .ok none
  | none => (prepareMask digests around request.payload (Request.key digests request) request.policy).map some

/-- The callback of the transition. -/
def callback (around : Surroundings) (request : Request) (prepared : Option RestorationState) : TransitionFn :=
  fun current =>
    (transition digests around current request.payload (Request.key digests request) request.policy prepared).map some

/-- `process` over the in-memory store. -/
def process (around : Surroundings) (request : Request) (at_ : Readings) (store : InMemoryRestorationStore codec) :
    Except PIIProxyError ProcessOutcome × InMemoryRestorationStore codec :=
  if request.payload = [] ∨ request.payloadId = [] then
    (.error (.invalidPayload "payload and payload_id are required"), store)
  else
    let key := Request.key digests request
    match store.get key at_.lookup with
    | (.error e, store) => (.error e, store)
    | (.ok found, store) =>
      match prepareIfNew digests around request found with
      | .error e => (.error e, store)
      | .ok prepared =>
        match store.transition key (callback digests around request prepared) at_.evict at_.read at_.write with
        | (.error e, store) => (.error e, store)
        | (.ok state, store) => (outcomeFromState state, store)

end

end ProcessService

end PiiProxy
