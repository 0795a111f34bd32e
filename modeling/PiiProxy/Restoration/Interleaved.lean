import Mathlib.Logic.Relation
import PiiProxy.Lib.History
import PiiProxy.Restoration.Redis
import PiiProxy.Theorems.MemoryStore

/-! Any number of calls on one key of the in-memory store at the same time. A step is a locked section; `transition` has
    two, and only it takes the stripe lock of the key (`app/restoration/memory.py`). -/

namespace PiiProxy.InMemoryRestorationStore

/-- The calls of the store interface, on the key. -/
abbrev Call := RedisRestorationStore.Op

abbrev Answer := Except PIIProxyError (Option RestorationState)

/-- Where a call stands. -/
inductive Phase where
  | pending
  /-- With the stripe lock, before the locked read. -/
  | holding
  /-- Between the two locked sections; the callback returns `newState`. -/
  | running (evictAt readAt : Time) (newState : Option RestorationState)
  /-- The call has its answer, the stripe lock still held. -/
  | releasing (answer : Answer)
  | done (answer : Answer)

namespace Phase

/-- The call holds the stripe lock. -/
def locked : Phase → Bool
  | holding | running _ _ _ | releasing _ => true
  | pending | done _ => false

def isRunning : Phase → Bool
  | running _ _ _ => true
  | pending | holding | releasing _ | done _ => false

def answer? : Phase → Option Answer
  | releasing answer | done answer => some answer
  | pending | holding | running _ _ _ => none

end Phase

/-- A call that has done its last section: the readings of the clock that it made are in `op`. -/
structure Event (ι : Type) where
  call : ι
  op : Op
  answer : Answer

/-- `finished` has the calls in the order of their last sections; no step looks at it. -/
structure System (codec : Codec) (ι : Type) where
  store : InMemoryRestorationStore codec
  now : Time
  holder : Option ι
  phase : ι → Phase
  finished : List (Event ι)

section
variable {codec : Codec} {ι : Type}

def System.start (ι : Type) (store : InMemoryRestorationStore codec) (now : Time) : System codec ι where
  store
  now
  holder := none
  phase _ := .pending
  finished := []

variable [DecidableEq ι]

def System.moveTo (s : System codec ι) (i : ι) (phase : Phase) : System codec ι :=
  { s with phase := Function.update s.phase i phase }

/-- The last section of a call, which leaves `store` and is over at `now`. -/
def System.finish (s : System codec ι) (e : Event ι) (store : InMemoryRestorationStore codec) (now : Time) (phase : Phase) :
    System codec ι :=
  { s with store, now, phase := Function.update s.phase e.call phase, finished := s.finished ++ [e] }

/-- A section of the call `i`, or what it does with the stripe lock. The clock never goes back. -/
inductive Step (payloadId : Str) (calls : ι → Call) : System codec ι → ι → System codec ι → Prop
  | get {s i now} : calls i = .get → s.phase i = .pending → s.now ≤ now →
      Step payloadId calls s i (s.finish ⟨i, .get payloadId now, (s.store.get payloadId now).1⟩
        (s.store.get payloadId now).2 now (.done (s.store.get payloadId now).1))
  | save {s i state evictAt writeAt answer store} : calls i = .save state → s.phase i = .pending →
      s.now ≤ evictAt → evictAt ≤ writeAt →
      (Op.save payloadId state evictAt writeAt).run s.store = (answer, store) →
      Step payloadId calls s i (s.finish ⟨i, .save payloadId state evictAt writeAt, answer⟩ store writeAt (.done answer))
  | delete {s i} : calls i = .delete → s.phase i = .pending →
      Step payloadId calls s i (s.finish ⟨i, .delete payloadId, .ok none⟩ (s.store.delete payloadId) s.now (.done (.ok none)))
  | acquire {s i fn} : calls i = .transition fn → s.phase i = .pending → s.holder = none →
      Step payloadId calls s i { s.moveTo i .holding with holder := some i }
  | read {s i fn evictAt readAt current newState store} : calls i = .transition fn → s.phase i = .holding →
      s.now ≤ evictAt → evictAt ≤ readAt →
      s.store.transitionRead payloadId evictAt readAt = (.ok current, store) → fn current = .ok newState →
      Step payloadId calls s i { s.moveTo i (.running evictAt readAt newState) with store, now := readAt }
  /-- The record is broken, or the callback is going to raise. -/
  | raise {s i fn evictAt readAt current store e} : calls i = .transition fn → s.phase i = .holding →
      s.now ≤ evictAt → evictAt ≤ readAt →
      s.store.transitionRead payloadId evictAt readAt = (current, store) → current.bind fn = .error e →
      Step payloadId calls s i (s.finish ⟨i, .transition payloadId fn evictAt readAt readAt, .error e⟩ store readAt
        (.releasing (.error e)))
  | write {s i fn evictAt readAt writeAt newState answer store} : calls i = .transition fn →
      s.phase i = .running evictAt readAt newState → s.now ≤ writeAt →
      s.store.transitionWrite payloadId newState writeAt = (answer, store) →
      Step payloadId calls s i (s.finish ⟨i, .transition payloadId fn evictAt readAt writeAt, answer⟩ store writeAt
        (.releasing answer))
  | release {s i answer} : s.phase i = .releasing answer →
      Step payloadId calls s i { s.moveTo i (.done answer) with holder := none }

/-- Between the two sections of a transition nobody saves or deletes, and no lookup finds the record expired. -/
def Undisturbed (payloadId : Str) (calls : ι → Call) (s : System codec ι) (i : ι) (s' : System codec ι) : Prop :=
  (∃ j, (s.phase j).isRunning = true) →
    match calls i with
    | .save _ | .delete => False
    | .get => ∀ p, s.store.data.get? payloadId = some p → s'.now < p.1
    | .transition _ => True

end

/-- The calls one after the other, each on the store as the one before has left it, with its own readings of the clock. -/
def sequential (codec : Codec) (ι : Type) : History.Object (InMemoryRestorationStore codec) (Event ι) where
  effect store e := (e.op.run store).2
  right store e := (e.op.run store).1 = e.answer

/-- The answers, and the content of the key when no transition is between its sections, are those of the calls in some
    order. -/
def Atomic {codec : Codec} {ι : Type} (payloadId : Str) (init : InMemoryRestorationStore codec) (s : System codec ι) :
    Prop :=
  ∃ order, order.Perm s.finished ∧ (sequential codec ι).Legal init order ∧
    ((∀ i, (s.phase i).isRunning = false) →
      ((sequential codec ι).after init order).data.get? payloadId = s.store.data.get? payloadId)

end PiiProxy.InMemoryRestorationStore
