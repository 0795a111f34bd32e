import Mathlib.Logic.Function.Basic
import Mathlib.Logic.Relation
import PiiProxy.Restoration.Models

/-! The Redis restoration store (`app/restoration/redis_store.py`): any number of calls on one key. A step is one
    command of Redis, with what the client computes from its answer before the next command. Between two commands
    of a call the others may run any of theirs, and Redis may let the key expire. -/

namespace PiiProxy.RedisRestorationStore

/-- `_MAX_CAS_RETRIES` -/
def maxCasRetries : Nat := 5

def contention : PIIProxyError := .serviceOverloaded "concurrent modification of restoration state" 1

abbrev Answer := Except PIIProxyError (Option RestorationState)

inductive Op where
  | get
  | save (state : RestorationState)
  | delete
  | transition (fn : TransitionFn)

/-- Where a call stands. -/
inductive Phase where
  /-- Before the first command of an attempt; `pending 0` has sent nothing yet. -/
  | pending (attempt : Nat)
  /-- After `WATCH`. -/
  | watching (attempt : Nat)
  /-- After `GET` and the callback, before `EXEC`. -/
  | ready (attempt : Nat) (newState : Option RestorationState)
  | done (answer : Answer)

/-- What takes effect on the key: an expiry, or a call with its answer. -/
inductive Event (ι : Type) where
  | expire
  | call (client : ι) (answer : Answer)

/-- `touched` says of each call whether the key was written, deleted or expired since its `WATCH`. `order` is the
    order in which the calls took effect; no step looks at it. -/
structure System (codec : Codec) (ι : Type) where
  value : Option codec.Token
  touched : ι → Bool
  phase : ι → Phase
  order : List (Event ι)

section
variable {codec : Codec} {ι : Type}

/-- Before the first command of any call. -/
def System.start (value : Option codec.Token) : System codec ι where
  value
  touched _ := false
  phase _ := .pending 0
  order := []

/-- The state that a raw value stands for. -/
def decodeValue (codec : Codec) (payloadId : Str) : Option codec.Token → Answer
  | none => .ok none
  | some raw => (codec.decode payloadId raw).map some

/-- `SET` or `DEL`. The deletion of a key that is not there touches nothing. -/
def System.write (s : System codec ι) (value : Option codec.Token) : System codec ι :=
  { s with value, touched := if s.value.isNone && value.isNone then s.touched else fun _ => true }

variable [DecidableEq ι]

def System.moveTo (s : System codec ι) (i : ι) (phase : Phase) : System codec ι :=
  { s with phase := Function.update s.phase i phase }

def System.watch (s : System codec ι) (i : ι) : System codec ι := { s with touched := Function.update s.touched i false }

/-- The call ends, and this is where it takes effect. -/
def System.finish (s : System codec ι) (i : ι) (answer : Answer) : System codec ι :=
  { s.moveTo i (.done answer) with order := s.order ++ [.call i answer] }

section Fields
variable (s : System codec ι) (i : ι) (phase : Phase) (answer : Answer)

@[simp] theorem phase_moveTo : (s.moveTo i phase).phase = Function.update s.phase i phase := rfl
@[simp] theorem order_moveTo : (s.moveTo i phase).order = s.order := rfl
@[simp] theorem value_moveTo : (s.moveTo i phase).value = s.value := rfl
@[simp] theorem touched_watch : (s.watch i).touched = Function.update s.touched i false := rfl
@[simp] theorem phase_finish : (s.finish i answer).phase = Function.update s.phase i (.done answer) := rfl
@[simp] theorem order_finish : (s.finish i answer).order = s.order ++ [.call i answer] := rfl
@[simp] theorem value_finish : (s.finish i answer).value = s.value := rfl
@[simp] theorem touched_finish : (s.finish i answer).touched = s.touched := rfl
omit [DecidableEq ι] in
@[simp] theorem phase_write (value : Option codec.Token) : (s.write value).phase = s.phase := rfl
omit [DecidableEq ι] in
@[simp] theorem order_write (value : Option codec.Token) : (s.write value).order = s.order := rfl
omit [DecidableEq ι] in
@[simp] theorem value_write (value : Option codec.Token) : (s.write value).value = value := rfl

end Fields

/-- One command of one of the calls `ops`, or an expiry. -/
inductive Step (payloadId : Str) (ops : ι → Op) : System codec ι → System codec ι → Prop
  | get {s i} : ops i = .get → s.phase i = .pending 0 →
      Step payloadId ops s (s.finish i (decodeValue codec payloadId s.value))
  | save {s i state} : ops i = .save state → s.phase i = .pending 0 →
      Step payloadId ops s ((s.write (some (codec.encode state))).finish i (.ok none))
  | delete {s i} : ops i = .delete → s.phase i = .pending 0 →
      Step payloadId ops s ((s.write none).finish i (.ok none))
  | watch {s i fn attempt} : ops i = .transition fn → s.phase i = .pending attempt → attempt < maxCasRetries →
      Step payloadId ops s ((s.watch i).moveTo i (.watching attempt))
  | read {s i fn attempt newState} : ops i = .transition fn → s.phase i = .watching attempt →
      (decodeValue codec payloadId s.value).bind fn = .ok newState →
      Step payloadId ops s (s.moveTo i (.ready attempt newState))
  /-- The record is broken, or the callback raises. -/
  | raise {s i fn attempt e} : ops i = .transition fn → s.phase i = .watching attempt →
      (decodeValue codec payloadId s.value).bind fn = .error e →
      Step payloadId ops s (s.finish i (.error e))
  | execute {s i fn attempt newState} : ops i = .transition fn → s.phase i = .ready attempt newState →
      s.touched i = false →
      Step payloadId ops s ((s.write (newState.map codec.encode)).finish i (.ok newState))
  /-- `WatchError` -/
  | abort {s i fn attempt newState} : ops i = .transition fn → s.phase i = .ready attempt newState →
      s.touched i = true →
      Step payloadId ops s (s.moveTo i (.pending (attempt + 1)))
  | giveUp {s i fn} : ops i = .transition fn → s.phase i = .pending maxCasRetries →
      Step payloadId ops s (s.finish i (.error contention))
  | expire {s raw} : s.value = some raw →
      Step payloadId ops s { s.write none with order := s.order ++ [.expire] }

/-- Any number of steps. -/
def Steps (payloadId : Str) (ops : ι → Op) : System codec ι → System codec ι → Prop :=
  Relation.ReflTransGen (Step payloadId ops)

end

end PiiProxy.RedisRestorationStore
