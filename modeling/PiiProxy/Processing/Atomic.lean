import PiiProxy.Processing.Backends
import PiiProxy.Processing.Concurrent

/-! What `process` is for, without lookups, locks, retries or a clock: each call takes effect at once on the one record
    of its key, or fails and changes nothing. Between two calls a record may be forgotten, as it is when it expires. -/

namespace PiiProxy.ProcessService

/-- Any number of calls. Each round of its transition a call may find other surroundings. -/
structure Callers (ι : Type) where
  digests : Digests
  arounds : ι → Nat → Surroundings
  request : ι → Request

section
variable {ι : Type}

namespace Callers
variable (callers : Callers ι) (i : ι)

def key : Str := Request.key callers.digests (callers.request i)

def consumer : Str := (callers.request i).policy.consumerId

/-- The call has a payload and an id. -/
def Named : Prop := ¬ ((callers.request i).payload = [] ∨ (callers.request i).payloadId = [])

instance : Decidable (callers.Named i) :=
  inferInstanceAs (Decidable (¬ ((callers.request i).payload = [] ∨ (callers.request i).payloadId = [])))

def prepare (n : Nat) : Except PIIProxyError RestorationState :=
  prepareMask callers.digests (callers.arounds i n) (callers.request i).payload (callers.key i) (callers.request i).policy

/-- The callback of a call in a round. -/
def decide (n : Nat) (prepared current : Option RestorationState) : Except PIIProxyError RestorationState :=
  transition callers.digests (callers.arounds i n) current (callers.request i).payload (callers.key i)
    (callers.request i).policy prepared

/-- The call brings no mask to its transition, or one that it has prepared. -/
def Brings (prepared : Option RestorationState) : Prop :=
  ∀ record, prepared = some record → ∃ n, callers.prepare i n = .ok record

/-- What the callback can make of a record. -/
def Decides (current : Option RestorationState) (result : Except PIIProxyError RestorationState) : Prop :=
  ∃ n prepared, callers.Brings i prepared ∧ callers.decide i n prepared current = result

/-- What a store can raise of itself: it is full, its record changes all the time, or it refuses the lifetime. -/
def storeErrors : List PIIProxyError :=
  [InMemoryRestorationStore.capacityExceeded, RedisRestorationStore.contention, RedisRestorationStore.invalidExpire]

/-- The errors with which a call can end whatever the record. -/
inductive Fails : PIIProxyError → Prop
  | missing : ¬ callers.Named i → Fails missing
  | prepare {n e} : callers.prepare i n = .error e → Fails e
  | store {e} : e ∈ storeErrors → Fails e

end Callers

/-- The calls over the in-memory store, whose transitions have one round. -/
def Calls.callers (calls : Calls ι) : Callers ι where
  digests := calls.digests
  arounds i _ := calls.around i
  request := calls.request

/-- The records by their keys, and the answers so far. -/
structure Atomic (ι : Type) where
  records : Str → Option RestorationState
  answers : ι → Option Answer

namespace Atomic

def start (ι : Type) : Atomic ι := ⟨fun _ => none, fun _ => none⟩

def setRecord (s : Atomic ι) (k : Str) (record : Option RestorationState) : Atomic ι :=
  { s with records := Function.update s.records k record }

variable [DecidableEq ι]

def reply (s : Atomic ι) (i : ι) (answer : Answer) : Atomic ι :=
  { s with answers := Function.update s.answers i (some answer) }

section Fields
variable (s : Atomic ι) (k : Str) (record : Option RestorationState) (i : ι) (answer : Answer)

omit [DecidableEq ι] in
@[simp] theorem records_setRecord : (s.setRecord k record).records = Function.update s.records k record := rfl
omit [DecidableEq ι] in
@[simp] theorem answers_setRecord : (s.setRecord k record).answers = s.answers := rfl
@[simp] theorem records_reply : (s.reply i answer).records = s.records := rfl
@[simp] theorem answers_reply : (s.reply i answer).answers = Function.update s.answers i (some answer) := rfl

end Fields

inductive Step (callers : Callers ι) : Atomic ι → Atomic ι → Prop
  | commit {s i state} : s.answers i = none → callers.Named i →
      callers.Decides i (s.records (callers.key i)) (.ok state) →
      Step callers s ((s.setRecord (callers.key i) (some state)).reply i (outcomeFromState (some state)))
  | refuse {s i e} : s.answers i = none → callers.Named i →
      callers.Decides i (s.records (callers.key i)) (.error e) → Step callers s (s.reply i (.error e))
  | fail {s i e} : s.answers i = none → callers.Fails i e → Step callers s (s.reply i (.error e))
  | forget {s} (k : Str) : Step callers s (s.setRecord k none)

end Atomic

end

end PiiProxy.ProcessService
