import PiiProxy.Restoration.Interleaved

/-! Any number of calls on any keys of the in-memory store at the same time, each as `Restoration/Interleaved` has it on
    one key. A transition holds the stripe lock that its key hashes to (`app/restoration/memory.py`). -/

namespace PiiProxy.InMemoryRestorationStore.Striped

/-- `_STRIPE_COUNT` -/
def stripeCount : Int := 256

/-- `hash(payload_id) % _STRIPE_COUNT` -/
def stripe (hash : Str → Int) (payloadId : Str) : Int := hash payloadId % stripeCount

/-- A section that tests the capacity: a save, or the write of a transition. -/
structure Attempt (codec : Codec) (ι : Type) where
  call : ι
  payloadId : Str
  before : InMemoryRestorationStore codec
  /-- The clock when the section evicted; that of a transition does not. -/
  evictAt : Option Time
  /-- The clock when the section ended, with a write or by raising. -/
  now : Time
  answer : Answer

/-- The store whose capacity the section tests. -/
def Attempt.tested {codec : Codec} {ι : Type} (a : Attempt codec ι) : InMemoryRestorationStore codec :=
  match a.evictAt with
  | none => a.before
  | some t => a.before.evictExpired t

/-- `holder` is by stripe. `attempts` has the tests of the capacity in their order; no step looks at it. -/
structure System (codec : Codec) (ι : Type) where
  store : InMemoryRestorationStore codec
  now : Time
  holder : Int → Option ι
  phase : ι → Phase
  attempts : List (Attempt codec ι)

section
variable {codec : Codec} {ι : Type}

def System.start (ι : Type) (store : InMemoryRestorationStore codec) (now : Time) : System codec ι where
  store
  now
  holder _ := none
  phase _ := .pending
  attempts := []

variable [DecidableEq ι]

/-- A section that leaves `store` and is over at `now`. -/
def System.moveTo (s : System codec ι) (i : ι) (phase : Phase) (store : InMemoryRestorationStore codec) (now : Time) :
    System codec ι :=
  { s with store, now, phase := Function.update s.phase i phase }

def System.attempt (s : System codec ι) (a : Attempt codec ι) (phase : Phase) (store : InMemoryRestorationStore codec) :
    System codec ι :=
  { s.moveTo a.call phase store a.now with attempts := s.attempts ++ [a] }

/-- A section of the call `i`, or what it does with its stripe lock. The clock never goes back. -/
inductive Step (hash : Str → Int) (calls : ι → Str × Call) : System codec ι → ι → System codec ι → Prop
  | get {s i k now} : calls i = (k, .get) → s.phase i = .pending → s.now ≤ now →
      Step hash calls s i (s.moveTo i (.done (s.store.get k now).1) (s.store.get k now).2 now)
  | save {s i k state evictAt now answer store} : calls i = (k, .save state) → s.phase i = .pending →
      s.now ≤ evictAt → evictAt ≤ now → (Op.save k state evictAt now).run s.store = (answer, store) →
      Step hash calls s i (s.attempt ⟨i, k, s.store, some evictAt, now, answer⟩ (.done answer) store)
  | delete {s i k} : calls i = (k, .delete) → s.phase i = .pending →
      Step hash calls s i (s.moveTo i (.done (.ok none)) (s.store.delete k) s.now)
  | acquire {s i k fn} : calls i = (k, .transition fn) → s.phase i = .pending → s.holder (stripe hash k) = none →
      Step hash calls s i { s.moveTo i .holding s.store s.now with
        holder := Function.update s.holder (stripe hash k) (some i) }
  | read {s i k fn evictAt readAt current newState store} : calls i = (k, .transition fn) → s.phase i = .holding →
      s.now ≤ evictAt → evictAt ≤ readAt →
      s.store.transitionRead k evictAt readAt = (.ok current, store) → fn current = .ok newState →
      Step hash calls s i (s.moveTo i (.running evictAt readAt newState) store readAt)
  /-- The record is broken, or the callback raises: no capacity is tested. -/
  | raise {s i k fn evictAt readAt current store e} : calls i = (k, .transition fn) → s.phase i = .holding →
      s.now ≤ evictAt → evictAt ≤ readAt →
      s.store.transitionRead k evictAt readAt = (current, store) → current.bind fn = .error e →
      Step hash calls s i (s.moveTo i (.releasing (.error e)) store readAt)
  | write {s i k fn evictAt readAt now newState answer store} : calls i = (k, .transition fn) →
      s.phase i = .running evictAt readAt newState → s.now ≤ now →
      s.store.transitionWrite k newState now = (answer, store) →
      Step hash calls s i (s.attempt ⟨i, k, s.store, none, now, answer⟩ (.releasing answer) store)
  | release {s i k fn answer} : calls i = (k, .transition fn) → s.phase i = .releasing answer →
      Step hash calls s i { s.moveTo i (.done answer) s.store s.now with
        holder := Function.update s.holder (stripe hash k) none }

end

end PiiProxy.InMemoryRestorationStore.Striped
