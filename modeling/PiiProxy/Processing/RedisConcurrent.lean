import PiiProxy.Processing.Atomic

/-! Any number of calls of `process` at the same time, over one Redis (`app/restoration/redis_store.py`). A step is one
    command of Redis, with what the call computes from its answer; the steps of different calls come in any order, and
    between two of them Redis may let a key expire. -/

namespace PiiProxy.ProcessService.Redis
open RedisRestorationStore

/-- The calls, with the client of the store that all of them use. -/
structure Calls (ι : Type) extends Callers ι where
  client : Client

/-- Where a call stands. -/
inductive Phase where
  | idle
  /-- The lookup found no record. -/
  | preparing
  /-- Before the `WATCH` of an attempt. -/
  | pending (prepared : Option RestorationState) (attempt : Nat)
  /-- After `WATCH`. -/
  | watching (prepared : Option RestorationState) (attempt : Nat)
  /-- After `GET` and the callback, before `EXEC`. -/
  | ready (prepared : Option RestorationState) (attempt : Nat) (state : RestorationState)
  | done (answer : Answer)

/-- `touched` says of each call whether its key was written or expired since its `WATCH`. `changes` has the keys that
    were written or expired, in their order; no step looks at it. -/
structure System (codec : Codec) (ι : Type) where
  values : Str → Option codec.Token
  touched : ι → Bool
  phase : ι → Phase
  changes : List Str

section
variable {codec : Codec} {ι : Type}

/-- The key of a call in Redis. -/
def Calls.redisKey (calls : Calls ι) (i : ι) : Str := calls.client.key (calls.key i)

/-- No call has begun, and Redis is empty. -/
def System.start (codec : Codec) (ι : Type) : System codec ι where
  values _ := none
  touched _ := false
  phase _ := .idle
  changes := []

/-- What the store answers about the key of a call. -/
def System.found (s : System codec ι) (calls : Calls ι) (i : ι) : RedisRestorationStore.Answer :=
  decodeValue codec (calls.key i) (s.values (calls.redisKey i))

/-- A key gets a value, or loses it; all that watch it are told. -/
def System.write (s : System codec ι) (calls : Calls ι) (redisKey : Str) (value : Option codec.Token) : System codec ι :=
  { s with
    values := Function.update s.values redisKey value
    touched := fun i => if calls.redisKey i = redisKey then true else s.touched i
    changes := redisKey :: s.changes }

variable [DecidableEq ι]

def System.moveTo (s : System codec ι) (i : ι) (phase : Phase) : System codec ι :=
  { s with phase := Function.update s.phase i phase }

def System.watch (s : System codec ι) (i : ι) : System codec ι := { s with touched := Function.update s.touched i false }

section Fields
variable (s : System codec ι) (calls : Calls ι) (i : ι) (phase : Phase) (redisKey : Str) (value : Option codec.Token)

@[simp] theorem phase_moveTo : (s.moveTo i phase).phase = Function.update s.phase i phase := rfl
theorem phase_moveTo_self : (s.moveTo i phase).phase i = phase := Function.update_self _ _ _
@[simp] theorem values_moveTo : (s.moveTo i phase).values = s.values := rfl
@[simp] theorem touched_moveTo : (s.moveTo i phase).touched = s.touched := rfl
@[simp] theorem changes_moveTo : (s.moveTo i phase).changes = s.changes := rfl
@[simp] theorem phase_watch : (s.watch i).phase = s.phase := rfl
@[simp] theorem values_watch : (s.watch i).values = s.values := rfl
@[simp] theorem touched_watch : (s.watch i).touched = Function.update s.touched i false := rfl
@[simp] theorem changes_watch : (s.watch i).changes = s.changes := rfl
omit [DecidableEq ι] in
@[simp] theorem phase_write : (s.write calls redisKey value).phase = s.phase := rfl
omit [DecidableEq ι] in
@[simp] theorem values_write :
    (s.write calls redisKey value).values = Function.update s.values redisKey value := rfl
omit [DecidableEq ι] in
theorem touched_write : (s.write calls redisKey value).touched =
    fun i => if calls.redisKey i = redisKey then true else s.touched i := rfl
omit [DecidableEq ι] in
@[simp] theorem changes_write : (s.write calls redisKey value).changes = redisKey :: s.changes := rfl

end Fields

/-- One step of one call, or an expiry. -/
inductive Step (calls : Calls ι) : System codec ι → System codec ι → Prop
  | reject {s i} : s.phase i = .idle → ¬ calls.Named i → Step calls s (s.moveTo i (.done (.error missing)))
  | lookup {s i found} : s.phase i = .idle → calls.Named i → s.found calls i = .ok found →
      Step calls s (s.moveTo i (if found.isSome then .pending none 0 else .preparing))
  /-- The record is broken. -/
  | lookupFails {s i e} : s.phase i = .idle → calls.Named i → s.found calls i = .error e →
      Step calls s (s.moveTo i (.done (.error e)))
  | prepare {s i record} : s.phase i = .preparing → calls.prepare i 0 = .ok record →
      Step calls s (s.moveTo i (.pending (some record) 0))
  | prepareFails {s i e} : s.phase i = .preparing → calls.prepare i 0 = .error e →
      Step calls s (s.moveTo i (.done (.error e)))
  | watch {s i prepared attempt} : s.phase i = .pending prepared attempt → attempt < maxCasRetries →
      Step calls s ((s.watch i).moveTo i (.watching prepared attempt))
  | read {s i prepared attempt current state} : s.phase i = .watching prepared attempt →
      s.found calls i = .ok current → calls.decide i attempt prepared current = .ok state →
      Step calls s (s.moveTo i (.ready prepared attempt state))
  | readFails {s i prepared attempt e} : s.phase i = .watching prepared attempt → s.found calls i = .error e →
      Step calls s (s.moveTo i (.done (.error e)))
  | refuse {s i prepared attempt current e} : s.phase i = .watching prepared attempt →
      s.found calls i = .ok current → calls.decide i attempt prepared current = .error e →
      Step calls s (s.moveTo i (.done (.error e)))
  | execute {s i prepared attempt state} : s.phase i = .ready prepared attempt state → s.touched i = false →
      0 < calls.client.ttlSeconds →
      Step calls s ((s.write calls (calls.redisKey i) (some (codec.encode state))).moveTo i
        (.done (outcomeFromState (some state))))
  | executeFails {s i prepared attempt state} : s.phase i = .ready prepared attempt state → s.touched i = false →
      calls.client.ttlSeconds ≤ 0 → Step calls s (s.moveTo i (.done (.error invalidExpire)))
  /-- `WatchError` -/
  | abort {s i prepared attempt state} : s.phase i = .ready prepared attempt state → s.touched i = true →
      Step calls s (s.moveTo i (.pending prepared (attempt + 1)))
  | giveUp {s i prepared} : s.phase i = .pending prepared maxCasRetries →
      Step calls s (s.moveTo i (.done (.error contention)))
  | expire {s redisKey} : (s.values redisKey).isSome = true → Step calls s (s.write calls redisKey none)

/-- The answer of a call that is over. -/
def Phase.answer? : Phase → Option Answer
  | done answer => some answer
  | idle | preparing | pending _ _ | watching _ _ | ready _ _ _ => none

end

end PiiProxy.ProcessService.Redis
