import Mathlib.Logic.Relation
import PiiProxy.Processing.Lifecycle

/-! Any number of calls of `process` at the same time, over one in-memory store. The atomic steps of a call are its
    lookup, the preparation of the mask, the stripe lock, the locked read, the callback and the locked write; the steps
    of different calls come in any order. -/

namespace PiiProxy.ProcessService

/-- The calls, with what each finds outside the store, and the stripe of each key. -/
structure Calls (ι : Type) where
  digests : Digests
  around : ι → Surroundings
  request : ι → Request
  stripe : Str → Nat

abbrev Answer := Except PIIProxyError ProcessOutcome

/-- Where a call stands. -/
inductive Phase where
  | idle
  /-- The lookup found no record. -/
  | preparing
  /-- Before the stripe lock. -/
  | waiting (prepared : Option RestorationState)
  /-- With the stripe lock, before the locked read. -/
  | holding (prepared : Option RestorationState)
  /-- After the locked read, before the callback. -/
  | deciding (prepared current : Option RestorationState)
  /-- After the callback, before the locked write. -/
  | writing (current : Option RestorationState) (state : RestorationState)
  /-- The transition is over, the stripe lock still held. -/
  | releasing (answer : Answer)
  | done (answer : Answer)

/-- The call holds its stripe lock. -/
def Phase.locked : Phase → Bool
  | holding _ | deciding _ _ | writing _ _ | releasing _ => true
  | idle | preparing | waiting _ | done _ => false

/-- A transition: what its callback saw, and what it made of it. -/
structure Event (ι : Type) where
  call : ι
  current : Option RestorationState
  result : Except PIIProxyError RestorationState

def Event.answer {ι : Type} (e : Event ι) : Answer := e.result.bind fun state => outcomeFromState (some state)

/-- `failed` has the calls that ended before their transition and `log` the transitions, each in the order in which
    it came; no step looks at them. -/
structure System (codec : Codec) (ι : Type) where
  store : InMemoryRestorationStore codec
  phase : ι → Phase
  holder : Nat → Option ι
  failed : List (ι × PIIProxyError)
  log : List (Event ι)

section
variable {codec : Codec} {ι : Type}

def Calls.key (calls : Calls ι) (i : ι) : Str := Request.key calls.digests (calls.request i)

def Calls.consumer (calls : Calls ι) (i : ι) : Str := (calls.request i).policy.consumerId

def Calls.prepare (calls : Calls ι) (i : ι) : Except PIIProxyError RestorationState :=
  prepareMask calls.digests (calls.around i) (calls.request i).payload (calls.key i) (calls.request i).policy

/-- The callback of a call. -/
def Calls.decide (calls : Calls ι) (i : ι) (prepared current : Option RestorationState) :
    Except PIIProxyError RestorationState :=
  transition calls.digests (calls.around i) current (calls.request i).payload (calls.key i) (calls.request i).policy
    prepared

def missing : PIIProxyError := .invalidPayload "payload and payload_id are required"

/-- No call has begun. -/
def System.start (ι : Type) (store : InMemoryRestorationStore codec) : System codec ι where
  store
  phase _ := .idle
  holder _ := none
  failed := []
  log := []

variable [DecidableEq ι]

def System.moveTo (s : System codec ι) (i : ι) (phase : Phase) : System codec ι :=
  { s with phase := Function.update s.phase i phase }

def System.withStore (s : System codec ι) (store : InMemoryRestorationStore codec) : System codec ι := { s with store }

def System.setHolder (s : System codec ι) (stripe : Nat) (i : Option ι) : System codec ι :=
  { s with holder := Function.update s.holder stripe i }

/-- The call ends before its transition. -/
def System.fail (s : System codec ι) (i : ι) (e : PIIProxyError) : System codec ι :=
  { s.moveTo i (.done (.error e)) with failed := s.failed ++ [(i, e)] }

/-- The transition of the call is over. -/
def System.finish (s : System codec ι) (e : Event ι) : System codec ι :=
  { s.moveTo e.call (.releasing e.answer) with log := s.log ++ [e] }

section Fields
variable (s : System codec ι) (i : ι) (phase : Phase) (e : PIIProxyError) (event : Event ι)
  (store : InMemoryRestorationStore codec) (stripe : Nat) (holder : Option ι)

@[simp] theorem phase_moveTo : (s.moveTo i phase).phase = Function.update s.phase i phase := rfl
@[simp] theorem store_moveTo : (s.moveTo i phase).store = s.store := rfl
@[simp] theorem log_moveTo : (s.moveTo i phase).log = s.log := rfl
@[simp] theorem failed_moveTo : (s.moveTo i phase).failed = s.failed := rfl
@[simp] theorem holder_moveTo : (s.moveTo i phase).holder = s.holder := rfl
@[simp] theorem phase_fail : (s.fail i e).phase = Function.update s.phase i (.done (.error e)) := rfl
@[simp] theorem store_fail : (s.fail i e).store = s.store := rfl
@[simp] theorem log_fail : (s.fail i e).log = s.log := rfl
@[simp] theorem failed_fail : (s.fail i e).failed = s.failed ++ [(i, e)] := rfl
@[simp] theorem holder_fail : (s.fail i e).holder = s.holder := rfl
@[simp] theorem phase_finish :
    (s.finish event).phase = Function.update s.phase event.call (.releasing event.answer) := rfl
@[simp] theorem store_finish : (s.finish event).store = s.store := rfl
@[simp] theorem log_finish : (s.finish event).log = s.log ++ [event] := rfl
@[simp] theorem failed_finish : (s.finish event).failed = s.failed := rfl
@[simp] theorem holder_finish : (s.finish event).holder = s.holder := rfl

end Fields

/-- One step of one call. The list has the readings of the clock by which the step tells whether an entry has
    expired. -/
inductive Step (calls : Calls ι) : System codec ι → List Time → System codec ι → Prop
  | reject {s i} : s.phase i = .idle → (calls.request i).payload = [] ∨ (calls.request i).payloadId = [] →
      Step calls s [] (s.fail i missing)
  | lookup {s i now found store} : s.phase i = .idle → ¬ ((calls.request i).payload = [] ∨ (calls.request i).payloadId = []) →
      s.store.get (calls.key i) now = (.ok found, store) →
      Step calls s [now] ((s.withStore store).moveTo i (if found.isSome then .waiting none else .preparing))
  /-- The entry of the key is broken. -/
  | lookupFails {s i now e store} : s.phase i = .idle →
      ¬ ((calls.request i).payload = [] ∨ (calls.request i).payloadId = []) →
      s.store.get (calls.key i) now = (.error e, store) →
      Step calls s [now] ((s.withStore store).fail i e)
  | prepare {s i state} : s.phase i = .preparing → calls.prepare i = .ok state →
      Step calls s [] (s.moveTo i (.waiting (some state)))
  | prepareFails {s i e} : s.phase i = .preparing → calls.prepare i = .error e → Step calls s [] (s.fail i e)
  | acquire {s i prepared} : s.phase i = .waiting prepared → s.holder (calls.stripe (calls.key i)) = none →
      Step calls s [] ((s.setHolder (calls.stripe (calls.key i)) (some i)).moveTo i (.holding prepared))
  | read {s i prepared evictAt readAt current store} : s.phase i = .holding prepared → evictAt ≤ readAt →
      s.store.transitionRead (calls.key i) evictAt readAt = (.ok current, store) →
      Step calls s [evictAt, readAt] ((s.withStore store).moveTo i (.deciding prepared current))
  | readFails {s i prepared evictAt readAt e store} : s.phase i = .holding prepared → evictAt ≤ readAt →
      s.store.transitionRead (calls.key i) evictAt readAt = (.error e, store) →
      Step calls s [evictAt, readAt] ((s.withStore store).moveTo i (.releasing (.error e)))
  | decide {s i prepared current state} : s.phase i = .deciding prepared current →
      calls.decide i prepared current = .ok state → Step calls s [] (s.moveTo i (.writing current state))
  | refuse {s i prepared current e} : s.phase i = .deciding prepared current →
      calls.decide i prepared current = .error e → Step calls s [] (s.finish ⟨i, current, .error e⟩)
  | write {s i current state writeAt store} : s.phase i = .writing current state →
      s.store.transitionWrite (calls.key i) (some state) writeAt = (.ok (some state), store) →
      Step calls s [] ((s.withStore store).finish ⟨i, current, .ok state⟩)
  /-- The store is full. -/
  | writeFails {s i current state writeAt e store} : s.phase i = .writing current state →
      s.store.transitionWrite (calls.key i) (some state) writeAt = (.error e, store) →
      Step calls s [] ((s.withStore store).moveTo i (.releasing (.error e)))
  | release {s i answer} : s.phase i = .releasing answer →
      Step calls s [] ((s.setHolder (calls.stripe (calls.key i)) none).moveTo i (.done answer))

/-- In this state no entry of the key expires by the readings, and the store has room for the key. -/
structure Calm (calls : Calls ι) (k : Str) (s : System codec ι) (readings : List Time) : Prop where
  unexpired : ∀ entry, s.store.data.get? k = some entry → ∀ t ∈ readings, t < entry.1
  room : ∀ i current state, s.phase i = .writing current state → calls.key i = k → s.store.isFull k = false

end

/-- Two calls of the default consumer on the id `1`: an original, and its mask. -/
def exampleCalls : Calls Bool where
  digests := Digests.plain
  around _ := Surroundings.plain
  request second := ⟨if second then "*@*.**".toList else "a@b.ru".toList, "1".toList, ConsumerPolicy.default⟩
  stripe _ := 0

end PiiProxy.ProcessService
