import PiiProxy.Restoration.Memory
import PiiProxy.Restoration.Redis

/-! One client of the Redis restoration store, over the whole database. What the other clients do between two of its
    commands is given from outside. -/

namespace PiiProxy.RedisRestorationStore

/-- The entries of Redis, each with its expiry. -/
abbrev Db (codec : Codec) := OrderedDict Str (Time × codec.Token)

structure Client where
  ttlSeconds : Int
  /-- `hmac.new(secret, …, sha256).hexdigest()` under the secret of the store. -/
  hmac : Str → Str

/-- What the other clients do to the database between two commands. A key that they do not touch keeps its entry. -/
structure Others (codec : Codec) where
  change : Db codec → Db codec
  touched : Str → Bool
  untouched : ∀ key, touched key = false → ∀ db, (change db).get? key = db.get? key

def Others.nothing (codec : Codec) : Others codec := ⟨id, fun _ => false, fun _ _ _ => rfl⟩

/-- One round of the loop in `transition`: the times of its commands, and what comes before each. -/
structure Attempt (codec : Codec) where
  beforeWatch : Others codec
  watchAt : Time
  beforeGet : Others codec
  readAt : Time
  beforeExec : Others codec
  execAt : Time

section
variable {codec : Codec}

/-- `GET` -/
def read (db : Db codec) (key : Str) (now : Time) : Option codec.Token := ExpiringDict.live now (db.get? key)

/-- The changes of the others in a round, in their order. -/
def Attempt.changes (attempt : Attempt codec) : List (Db codec → Db codec) :=
  [attempt.beforeWatch.change, attempt.beforeGet.change, attempt.beforeExec.change]

/-- `EXEC` aborts when the key was touched since `WATCH`, or has expired since then. -/
def Attempt.aborts (attempt : Attempt codec) (key : Str) (watched : Db codec) : Bool :=
  attempt.beforeGet.touched key || attempt.beforeExec.touched key ||
    (read watched key attempt.watchAt).isSome && (read watched key attempt.execAt).isNone

/-- Redis refuses `EX` with a time that is not positive. -/
def invalidExpire : PIIProxyError := .other "ResponseError: invalid expire time"

namespace Client
variable (client : Client) (payloadId : Str)

/-- `_key` -/
def key : Str := "pii:restore:".toList ++ client.hmac payloadId

variable {client payloadId} in
theorem hmac_eq {payloadId' : Str} (h : client.key payloadId = client.key payloadId') :
    client.hmac payloadId = client.hmac payloadId' := List.append_cancel_left h

def get (now : Time) (db : Db codec) : Answer := decodeValue codec payloadId (read db (client.key payloadId) now)

/-- The queued command, `DEL` or `SET` with `EX`, as `EXEC` runs it. -/
def execute (newState : Option RestorationState) (now : Time) (db : Db codec) : Answer × Db codec :=
  match newState with
  | none => (.ok none, db.erase (client.key payloadId))
  | some state =>
    if client.ttlSeconds ≤ 0 then (.error invalidExpire, db)
    else (.ok (some state), db.set (client.key payloadId) (now + client.ttlSeconds, codec.encode state))

/-- One round; without an answer it ended with `WatchError`. -/
def tryOnce (fn : TransitionFn) (attempt : Attempt codec) (db : Db codec) : Option Answer × Db codec :=
  let watched := attempt.beforeWatch.change db
  let found := attempt.beforeGet.change watched
  match (decodeValue codec payloadId (read found (client.key payloadId) attempt.readAt)).bind fn with
  | .error e => (some (.error e), found)
  | .ok newState =>
    let db := attempt.beforeExec.change found
    if attempt.aborts (client.key payloadId) watched then (none, db)
    else
      let (answer, db) := client.execute payloadId newState attempt.execAt db
      (some answer, db)

/-- The rounds that are left, each with the callback as it answers in it. -/
def retry : List (TransitionFn × Attempt codec) → Db codec → Answer × Db codec
  | [], db => (.error contention, db)
  | (fn, attempt) :: rounds, db =>
    match client.tryOnce payloadId fn attempt db with
    | (some answer, db) => (answer, db)
    | (none, db) => retry rounds db

/-- `fn n` is the callback as it answers in round `n`. -/
def transition (fn : Nat → TransitionFn) (attempts : Nat → Attempt codec) (db : Db codec) : Answer × Db codec :=
  client.retry payloadId ((List.range maxCasRetries).map fun n => (fn n, attempts n)) db

end Client

/-! ### Errors -/

/-- The others' changes, one after the other. -/
def applyChanges (changes : List (Db codec → Db codec)) (db : Db codec) : Db codec :=
  changes.foldl (fun db change => change db) db

theorem applyChanges_append (changes changes' : List (Db codec → Db codec)) (db : Db codec) :
    applyChanges (changes ++ changes') db = applyChanges changes' (applyChanges changes db) := List.foldl_append

section
variable {client : Client} {payloadId : Str} {db db' : Db codec} {e : PIIProxyError}

theorem execute_error {newState : Option RestorationState} {now : Time}
    (h : client.execute payloadId newState now db = (.error e, db')) : db' = db := by
  unfold Client.execute at h
  cases newState with
  | none => cases h
  | some state =>
    dsimp only at h
    split at h
    · exact (congrArg Prod.snd h).symm
    · cases h

/-- A round that ends without an answer leaves what the others made of the database. -/
theorem tryOnce_none {fn : TransitionFn} {attempt : Attempt codec}
    (h : client.tryOnce payloadId fn attempt db = (none, db')) : db' = applyChanges attempt.changes db := by
  unfold Client.tryOnce at h
  dsimp only at h
  split at h
  · cases h
  · split at h
    · exact (congrArg Prod.snd h).symm
    · cases h

/-- A round that ends with an error has changed nothing by itself: the others' changes came up to there. -/
theorem tryOnce_error {fn : TransitionFn} {attempt : Attempt codec}
    (h : client.tryOnce payloadId fn attempt db = (some (.error e), db')) :
    ∃ changes, changes <+: attempt.changes ∧ db' = applyChanges changes db := by
  unfold Client.tryOnce at h
  dsimp only at h
  split at h
  · exact ⟨[attempt.beforeWatch.change, attempt.beforeGet.change], ⟨[attempt.beforeExec.change], rfl⟩,
      (congrArg Prod.snd h).symm⟩
  · rename_i newState hnew
    split at h
    · cases h
    · generalize hexec : client.execute payloadId newState attempt.execAt _ = r at h
      obtain ⟨answer, after⟩ := r
      cases h
      exact ⟨attempt.changes, List.prefix_refl _, execute_error hexec⟩

theorem retry_error {rounds : List (TransitionFn × Attempt codec)}
    (h : client.retry payloadId rounds db = (.error e, db')) :
    ∃ changes, changes <+: rounds.flatMap (fun round => round.2.changes) ∧ db' = applyChanges changes db := by
  induction rounds generalizing db with
  | nil =>
    cases h
    exact ⟨[], List.prefix_refl _, rfl⟩
  | cons round rounds ih =>
    obtain ⟨fn, attempt⟩ := round
    rw [Client.retry] at h
    generalize htry : client.tryOnce payloadId fn attempt db = r at h
    obtain ⟨answer, after⟩ := r
    cases answer with
    | some answer =>
      cases h
      obtain ⟨changes, hprefix, hafter⟩ := tryOnce_error htry
      exact ⟨changes, hprefix.trans (List.prefix_append _ _), hafter⟩
    | none =>
      obtain ⟨changes, hprefix, hafter⟩ := ih h
      refine ⟨attempt.changes ++ changes, (List.prefix_append_right_inj _).mpr hprefix, ?_⟩
      rw [applyChanges_append, ← tryOnce_none htry]
      exact hafter

/-- A transition that raises has changed nothing by itself. -/
theorem transition_error {fn : Nat → TransitionFn} {attempts : Nat → Attempt codec}
    (h : client.transition payloadId fn attempts db = (.error e, db')) :
    ∃ changes, changes <+: (List.range maxCasRetries).flatMap (fun n => (attempts n).changes) ∧
      db' = applyChanges changes db := by
  obtain ⟨changes, hprefix, hafter⟩ := retry_error h
  rw [List.flatMap_map] at hprefix
  exact ⟨changes, hprefix, hafter⟩

/-- What a transition answers without raising is what the callback has answered. -/
theorem execute_ok {newState answer : Option RestorationState} {now : Time}
    (h : client.execute payloadId newState now db = (.ok answer, db')) : answer = newState := by
  unfold Client.execute at h
  cases newState with
  | none =>
    cases h
    rfl
  | some state =>
    dsimp only at h
    split at h
    · cases h
    · cases h
      rfl

theorem tryOnce_ok {fn : TransitionFn} {attempt : Attempt codec} {answer : Option RestorationState}
    (h : client.tryOnce payloadId fn attempt db = (some (.ok answer), db')) : ∃ current, fn current = .ok answer := by
  unfold Client.tryOnce at h
  dsimp only at h
  split at h
  · cases h
  · rename_i newState hnew
    split at h
    · cases h
    · generalize hexec : client.execute payloadId newState attempt.execAt _ = r at h
      obtain ⟨result, after⟩ := r
      cases h
      rw [execute_ok hexec]
      cases hfound : decodeValue codec payloadId (read (attempt.beforeGet.change (attempt.beforeWatch.change db))
          (client.key payloadId) attempt.readAt) with
      | error e =>
        rw [hfound] at hnew
        cases hnew
      | ok current =>
        rw [hfound] at hnew
        exact ⟨current, hnew⟩

theorem transition_ok {fn : Nat → TransitionFn} {attempts : Nat → Attempt codec} {answer : Option RestorationState}
    (h : client.transition payloadId fn attempts db = (.ok answer, db')) : ∃ n current, fn n current = .ok answer := by
  unfold Client.transition at h
  generalize List.range maxCasRetries = rounds at h
  induction rounds generalizing db with
  | nil => cases h
  | cons n rounds ih =>
    rw [List.map_cons, Client.retry] at h
    generalize htry : client.tryOnce payloadId (fn n) (attempts n) db = r at h
    obtain ⟨result, after⟩ := r
    cases result with
    | none => exact ih h
    | some result =>
      cases h
      exact ⟨n, tryOnce_ok htry⟩

end

/-! ### Alone -/

/-- A round in which nobody else does anything and no time passes. -/
def Attempt.quiet (codec : Codec) (now : Time) : Attempt codec :=
  ⟨.nothing codec, now, .nothing codec, now, .nothing codec, now⟩

theorem tryOnce_quiet (client : Client) (payloadId : Str) (fn : TransitionFn) (now : Time) (db : Db codec) :
    client.tryOnce payloadId fn (Attempt.quiet codec now) db =
      match (client.get payloadId now db).bind fn with
      | .error e => (some (.error e), db)
      | .ok newState =>
        (some (client.execute payloadId newState now db).1, (client.execute payloadId newState now db).2) := by
  have haborts : (Attempt.quiet codec now).aborts (client.key payloadId) db = false := by
    simp [Attempt.aborts, Attempt.quiet, Others.nothing]
  cases hnew : (client.get payloadId now db).bind fn with
  | error e =>
    have hnew' : (decodeValue codec payloadId (read db (client.key payloadId) now)).bind fn = .error e := hnew
    simp [Client.tryOnce, Attempt.quiet, Others.nothing, hnew']
  | ok newState =>
    have hnew' : (decodeValue codec payloadId (read db (client.key payloadId) now)).bind fn = .ok newState := hnew
    rw [Attempt.quiet, Others.nothing] at haborts
    simp [Client.tryOnce, Attempt.quiet, Others.nothing, hnew', haborts]

/-- Alone, the first round decides. -/
theorem transition_quiet (client : Client) (payloadId : Str) (fn : Nat → TransitionFn) (now : Time) (db : Db codec) :
    client.transition payloadId fn (fun _ => Attempt.quiet codec now) db =
      match (client.get payloadId now db).bind (fn 0) with
      | .error e => (.error e, db)
      | .ok newState => client.execute payloadId newState now db := by
  have hrounds : (List.range maxCasRetries).map (fun n => (fn n, Attempt.quiet codec now)) =
      (fn 0, Attempt.quiet codec now) :: [1, 2, 3, 4].map fun n => (fn n, Attempt.quiet codec now) := rfl
  rw [Client.transition, hrounds, Client.retry, tryOnce_quiet]
  cases (client.get payloadId now db).bind (fn 0) with
  | error e => rfl
  | ok newState => rfl

end

end PiiProxy.RedisRestorationStore
