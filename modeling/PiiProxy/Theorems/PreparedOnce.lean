import Mathlib.Data.Nat.Count
import PiiProxy.Processing.Backends
import PiiProxy.Theorems.Isolation

/-! # How often a call prepares a mask

Over Redis the callback runs once in each round of the transition. What it prepares there is gone in the next round, so a
call that finds its record deleted in two rounds prepares the mask twice. -/

namespace PiiProxy.RedisRestorationStore

section
variable {codec : Codec} (client : Client) (payloadId : Str) (attempts : Nat → Attempt codec) (db : Db codec)
  (asks : Option RestorationState → Bool)

/-! ### Counting in the loop of the transition -/

/-- Whether the callback of a round is called with such a state. -/
def Client.asked (attempt : Attempt codec) (db : Db codec) : Bool :=
  match decodeValue codec payloadId
      (read (attempt.beforeGet.change (attempt.beforeWatch.change db)) (client.key payloadId) attempt.readAt) with
  | .error _ => false
  | .ok current => asks current

/-- `retry`, with the number of callbacks that are called with such a state. -/
def Client.retryCounting : List (TransitionFn × Attempt codec) → Db codec → (Answer × Db codec) × Nat
  | [], db => ((.error contention, db), 0)
  | (fn, attempt) :: rounds, db =>
    let count := if client.asked payloadId asks attempt db then 1 else 0
    match client.tryOnce payloadId fn attempt db with
    | (some answer, db) => ((answer, db), count)
    | (none, db) =>
      let (result, more) := retryCounting rounds db
      (result, count + more)

def Client.transitionCounting (fn : Nat → TransitionFn) : (Answer × Db codec) × Nat :=
  client.retryCounting payloadId asks ((List.range maxCasRetries).map fun n => (fn n, attempts n)) db

/-- The database as the round `n` finds it, if all rounds before it ended with `WatchError`. -/
def dbBefore (n : Nat) : Db codec := applyChanges ((List.range n).flatMap fun m => (attempts m).changes) db

/-- What the round `n` then reads. -/
def Client.found (n : Nat) : Answer :=
  decodeValue codec payloadId (read ((attempts n).beforeGet.change ((attempts n).beforeWatch.change (dbBefore attempts db n)))
    (client.key payloadId) (attempts n).readAt)

/-- The callback of the round `n` returns, and the round ends with `WatchError`. -/
def Client.loses (fn : Nat → TransitionFn) (n : Nat) : Bool :=
  ((client.found payloadId attempts db n).bind (fn n)).isOk &&
    (attempts n).aborts (client.key payloadId) ((attempts n).beforeWatch.change (dbBefore attempts db n))

/-- The transition comes to the round `n`. -/
def Client.Reached (fn : Nat → TransitionFn) (n : Nat) : Prop :=
  n < maxCasRetries ∧ ∀ m < n, client.loses payloadId attempts db fn m = true

instance (fn : Nat → TransitionFn) (n : Nat) : Decidable (client.Reached payloadId attempts db fn n) :=
  inferInstanceAs (Decidable (_ ∧ _))

variable {client payloadId attempts db asks} {fn : Nat → TransitionFn} {n : Nat}

theorem retryCounting_fst (rounds : List (TransitionFn × Attempt codec)) (db : Db codec) :
    (client.retryCounting payloadId asks rounds db).1 = client.retry payloadId rounds db := by
  induction rounds generalizing db with
  | nil => rfl
  | cons round rounds ih =>
    obtain ⟨fn, attempt⟩ := round
    rw [Client.retryCounting, Client.retry]
    generalize client.tryOnce payloadId fn attempt db = r
    obtain ⟨_ | answer, after⟩ := r
    · exact ih after
    · rfl

theorem transitionCounting_fst (asks : Option RestorationState → Bool) :
    (client.transitionCounting payloadId attempts db asks fn).1 = client.transition payloadId fn attempts db :=
  retryCounting_fst _ db

theorem tryOnce_of_loses (h : client.loses payloadId attempts db fn n = true) :
    client.tryOnce payloadId (fn n) (attempts n) (dbBefore attempts db n) = (none, dbBefore attempts db (n + 1)) := by
  obtain ⟨hreturns, haborts⟩ := Bool.and_eq_true_iff.mp h
  have hnone : (client.tryOnce payloadId (fn n) (attempts n) (dbBefore attempts db n)).1 = none := by
    unfold Client.tryOnce
    cases hnew : (client.found payloadId attempts db n).bind (fn n) with
    | error e =>
      rw [hnew] at hreturns
      cases hreturns
    | ok newState =>
      unfold Client.found at hnew
      dsimp only
      rw [hnew]
      dsimp only
      rw [if_pos haborts]
  have hafter := tryOnce_none (Prod.ext hnone rfl)
  refine Prod.ext hnone (hafter.trans ?_)
  rw [dbBefore, dbBefore, List.range_succ, List.flatMap_append, applyChanges_append]
  simp

theorem tryOnce_of_not_loses (h : client.loses payloadId attempts db fn n = false) :
    ∃ answer, (client.tryOnce payloadId (fn n) (attempts n) (dbBefore attempts db n)).1 = some answer := by
  unfold Client.tryOnce
  cases hnew : (client.found payloadId attempts db n).bind (fn n) with
  | error e =>
    unfold Client.found at hnew
    dsimp only
    rw [hnew]
    exact ⟨_, rfl⟩
  | ok newState =>
    have haborts : (attempts n).aborts (client.key payloadId)
        ((attempts n).beforeWatch.change (dbBefore attempts db n)) = false := by
      rw [Client.loses, hnew] at h
      simpa [Except.isOk, Except.toBool] using h
    unfold Client.found at hnew
    dsimp only
    rw [hnew]
    dsimp only
    rw [if_neg (by simp [haborts])]
    exact ⟨_, rfl⟩

/-- Each round that is reached counts for itself. -/
theorem retryCounting_snd (len : Nat) :
    (client.retryCounting payloadId asks ((List.range' n len).map fun m => (fn m, attempts m)) (dbBefore attempts db n)).2 =
      (List.range' n len).countP fun m => decide (∀ k < m, n ≤ k → client.loses payloadId attempts db fn k = true) &&
        client.asked payloadId asks (attempts m) (dbBefore attempts db m) := by
  induction len generalizing n with
  | zero => rfl
  | succ len ih =>
    have hfirst : decide (∀ k < n, n ≤ k → client.loses payloadId attempts db fn k = true) = true :=
      decide_eq_true fun k hk hn => absurd hn (not_le.mpr hk)
    rw [List.range'_succ, List.map_cons, Client.retryCounting, List.countP_cons, hfirst, Bool.true_and]
    cases hloses : client.loses payloadId attempts db fn n with
    | true =>
      rw [tryOnce_of_loses hloses]
      dsimp only
      rw [ih, Nat.add_comm]
      refine congrArg (fun count => count + _) (List.countP_congr fun m _ => ?_)
      have hiff : (∀ k < m, n + 1 ≤ k → client.loses payloadId attempts db fn k = true) ↔
          ∀ k < m, n ≤ k → client.loses payloadId attempts db fn k = true := by
        refine ⟨fun h k hk hn => ?_, fun h k hk hn => h k hk (Nat.le_of_succ_le hn)⟩
        rcases Nat.eq_or_lt_of_le hn with rfl | hn
        · exact hloses
        · exact h k hk hn
      simp only [hiff]
    | false =>
      obtain ⟨answer, hanswer⟩ := tryOnce_of_not_loses hloses
      generalize client.tryOnce payloadId (fn n) (attempts n) (dbBefore attempts db n) = r at hanswer
      obtain ⟨_, after⟩ := r
      obtain rfl := hanswer
      dsimp only
      have hrest : (List.range' (n + 1) len).countP (fun m =>
          decide (∀ k < m, n ≤ k → client.loses payloadId attempts db fn k = true) &&
            client.asked payloadId asks (attempts m) (dbBefore attempts db m)) = 0 := by
        rw [List.countP_eq_zero]
        intro m hm hcounts
        have hlt := (List.mem_range'_1.mp hm).1
        have hall := of_decide_eq_true (Bool.and_eq_true_iff.mp hcounts).1
        rw [hall n hlt (le_refl n)] at hloses
        cases hloses
      rw [hrest, Nat.zero_add]

/-- The number of rounds that are reached and call the callback with such a state. -/
theorem transitionCounting_snd :
    (client.transitionCounting payloadId attempts db asks fn).2 =
      Nat.count (fun n => client.Reached payloadId attempts db fn n ∧
        client.asked payloadId asks (attempts n) (dbBefore attempts db n) = true) maxCasRetries := by
  have hrounds : (client.retryCounting payloadId asks ((List.range' 0 maxCasRetries).map fun m => (fn m, attempts m))
      (dbBefore attempts db 0)).2 = _ := retryCounting_snd maxCasRetries
  rw [Client.transitionCounting, List.range_eq_range']
  refine hrounds.trans ?_
  rw [Nat.count, ← List.range_eq_range']
  refine List.countP_congr fun m hm => ?_
  simp [Client.Reached, List.mem_range.mp hm]

end

end PiiProxy.RedisRestorationStore

namespace PiiProxy.ProcessService
open RedisRestorationStore

section
variable {codec : Codec} (digests : Digests) (request : Request) (arounds : Nat → Surroundings) (client : Client)
  (schedule : Schedule codec) (db : Db codec)

/-! ### Counting the calls of `_prepare_mask` -/

/-- The callback prepares a mask when there is no record and the call has prepared none before the transition. -/
def prepares (prepared current : Option RestorationState) : Bool := prepared.isNone && current.isNone

/-- `process` over the Redis store, with the number of times that it prepares a mask. -/
def processCounting : (Except PIIProxyError ProcessOutcome × Db codec) × Nat :=
  if request.payload = [] ∨ request.payloadId = [] then
    ((.error (.invalidPayload "payload and payload_id are required"), db), 0)
  else
    match client.get (Request.key digests request) schedule.lookupAt db with
    | .error e => ((.error e, db), 0)
    | .ok found =>
      let count := if found.isNone then 1 else 0
      match prepareIfNew digests (arounds 0) request found with
      | .error e => ((.error e, db), count)
      | .ok prepared =>
        match client.transitionCounting (Request.key digests request) schedule.attempts db (prepares prepared)
            (fun n => callback digests (arounds n) request prepared) with
        | ((.error e, db), more) => ((.error e, db), count + more)
        | ((.ok state, db), more) => ((outcomeFromState state, db), count + more)

theorem processCounting_fst :
    (processCounting digests request arounds client schedule db).1 = processRedis digests request arounds client schedule db := by
  unfold processCounting processRedis processOver
  split
  · rfl
  · dsimp only
    cases client.get (Request.key digests request) schedule.lookupAt db with
    | error e => rfl
    | ok found =>
      dsimp only
      cases prepareIfNew digests (arounds 0) request found with
      | error e => rfl
      | ok prepared =>
        dsimp only
        have hsame : _ = client.transition (Request.key digests request)
            (fun n => callback digests (arounds n) request prepared) schedule.attempts db :=
          transitionCounting_fst (prepares prepared)
        rw [← hsame]
        generalize client.transitionCounting (Request.key digests request) schedule.attempts db (prepares prepared)
          (fun n => callback digests (arounds n) request prepared) = r
        obtain ⟨⟨answer, after⟩, more⟩ := r
        cases answer with
        | error e => rfl
        | ok state => rfl

/-! ### How many there are -/

/-- A round that the transition of a call comes to which has prepared nothing before, and which finds no record. -/
def FindsNone (n : Nat) : Prop :=
  client.Reached (Request.key digests request) schedule.attempts db (fun n => callback digests (arounds n) request none) n ∧
    client.found (Request.key digests request) schedule.attempts db n = .ok none

variable {digests request arounds client schedule db}

theorem asked_prepares_none {n : Nat} :
    client.asked (Request.key digests request) (prepares none) (schedule.attempts n) (dbBefore schedule.attempts db n) = true ↔
      client.found (Request.key digests request) schedule.attempts db n = .ok none := by
  unfold Client.asked Client.found
  cases decodeValue codec (Request.key digests request)
      (read ((schedule.attempts n).beforeGet.change ((schedule.attempts n).beforeWatch.change
        (dbBefore schedule.attempts db n))) (client.key (Request.key digests request)) (schedule.attempts n).readAt) with
  | error e => simp
  | ok current => cases current <;> simp [prepares]

theorem asked_prepares_some {record : RestorationState} {n : Nat} :
    client.asked (Request.key digests request) (prepares (some record)) (schedule.attempts n)
      (dbBefore schedule.attempts db n) = false := by
  unfold Client.asked
  split <;> rfl

theorem transitionCounting_of_prepared (record : RestorationState) (fn : Nat → TransitionFn) :
    (client.transitionCounting (Request.key digests request) schedule.attempts db (prepares (some record)) fn).2 = 0 := by
  rw [transitionCounting_snd, Nat.count_eq_card_filter_range, Finset.card_eq_zero, Finset.filter_eq_empty_iff]
  rintro n - ⟨-, hasked⟩
  rw [asked_prepares_some] at hasked
  cases hasked

theorem processCounting_of_found {found prepared : Option RestorationState}
    (named : ¬ (request.payload = [] ∨ request.payloadId = []))
    (hget : client.get (Request.key digests request) schedule.lookupAt db = .ok found)
    (hprepare : prepareIfNew digests (arounds 0) request found = .ok prepared) :
    (processCounting digests request arounds client schedule db).2 = (if found.isNone then 1 else 0) +
      (client.transitionCounting (Request.key digests request) schedule.attempts db (prepares prepared)
        (fun n => callback digests (arounds n) request prepared)).2 := by
  unfold processCounting
  rw [if_neg named, hget]
  dsimp only
  rw [hprepare]
  dsimp only
  generalize client.transitionCounting (Request.key digests request) schedule.attempts db (prepares prepared)
    (fun n => callback digests (arounds n) request prepared) = r
  obtain ⟨⟨answer, after⟩, more⟩ := r
  cases answer with
  | error e => rfl
  | ok state => rfl

theorem processCounting_of_none (named : ¬ (request.payload = [] ∨ request.payloadId = []))
    (hget : client.get (Request.key digests request) schedule.lookupAt db = .ok none) :
    (processCounting digests request arounds client schedule db).2 = 1 := by
  cases hmask : prepareMask digests (arounds 0) request.payload (Request.key digests request) request.policy with
  | error e =>
    have hprepare : prepareIfNew digests (arounds 0) request none = .error e := by
      rw [prepareIfNew, hmask]
      rfl
    unfold processCounting
    rw [if_neg named, hget]
    dsimp only
    rw [hprepare]
    rfl
  | ok record =>
    have hprepare : prepareIfNew digests (arounds 0) request none = .ok (some record) := by
      rw [prepareIfNew, hmask]
      rfl
    rw [processCounting_of_found named hget hprepare, transitionCounting_of_prepared]
    rfl

/-- A call that has found a record prepares a mask in each round that finds none. -/
theorem processCounting_of_some (named : ¬ (request.payload = [] ∨ request.payloadId = [])) {record : RestorationState}
    (hget : client.get (Request.key digests request) schedule.lookupAt db = .ok (some record)) :
    (processCounting digests request arounds client schedule db).2 =
      ((Finset.range maxCasRetries).filter fun n =>
        client.Reached (Request.key digests request) schedule.attempts db
            (fun n => callback digests (arounds n) request none) n ∧
          client.asked (Request.key digests request) (prepares none) (schedule.attempts n)
            (dbBefore schedule.attempts db n) = true).card := by
  rw [processCounting_of_found named hget rfl, transitionCounting_snd, Nat.count_eq_card_filter_range]
  exact Nat.zero_add _

theorem processCounting_of_unnamed (unnamed : request.payload = [] ∨ request.payloadId = []) :
    (processCounting digests request arounds client schedule db).2 = 0 := by
  rw [processCounting, if_pos unnamed]

theorem processCounting_of_error {e : PIIProxyError}
    (hget : client.get (Request.key digests request) schedule.lookupAt db = .error e) :
    (processCounting digests request arounds client schedule db).2 = 0 := by
  unfold processCounting
  split
  · rfl
  · rw [hget]

/-- The counting call is the call. It prepares a mask at most once exactly if it finds no record at its lookup, or finds
    none in at most one round of its transition; and never if it finds one whenever it looks. -/
theorem prepares_once_iff (digests : Digests) (request : Request) (arounds : Nat → Surroundings) (client : Client)
    (schedule : Schedule codec) (db : Db codec) :
    (processCounting digests request arounds client schedule db).1 =
        processRedis digests request arounds client schedule db ∧
      ((processCounting digests request arounds client schedule db).2 ≤ 1 ↔
        ¬ ((request.payload ≠ [] ∧ request.payloadId ≠ []) ∧
          (∃ record, client.get (Request.key digests request) schedule.lookupAt db = .ok (some record)) ∧
          ∃ m n, m < n ∧ FindsNone digests request arounds client schedule db m ∧
            FindsNone digests request arounds client schedule db n)) ∧
      (client.get (Request.key digests request) schedule.lookupAt db ≠ .ok none →
        (∀ n, ¬ FindsNone digests request arounds client schedule db n) →
        (processCounting digests request arounds client schedule db).2 = 0) := by
  refine ⟨processCounting_fst digests request arounds client schedule db, ?_, ?_⟩
  · by_cases unnamed : request.payload = [] ∨ request.payloadId = []
    · rw [processCounting_of_unnamed unnamed]
      exact iff_of_true (Nat.zero_le 1) fun h => not_or.mpr h.1 unnamed
    · cases hget : client.get (Request.key digests request) schedule.lookupAt db with
      | error e =>
        rw [processCounting_of_error hget]
        refine iff_of_true (Nat.zero_le 1) ?_
        rintro ⟨-, ⟨record, ⟨⟩⟩, -⟩
      | ok found =>
        cases found with
        | none =>
          rw [processCounting_of_none unnamed hget]
          refine iff_of_true (le_refl 1) ?_
          rintro ⟨-, ⟨record, ⟨⟩⟩, -⟩
        | some record =>
          rw [processCounting_of_some unnamed hget, Finset.card_le_one]
          simp only [Finset.mem_filter, Finset.mem_range, asked_prepares_none]
          constructor
          · rintro h ⟨-, -, m, n, hlt, hm, hn⟩
            exact Nat.ne_of_lt hlt (h m ⟨hm.1.1, hm⟩ n ⟨hn.1.1, hn⟩)
          · rintro h m ⟨-, hm⟩ n ⟨-, hn⟩
            by_contra hne
            refine h ⟨not_or.mp unnamed, ⟨record, rfl⟩, ?_⟩
            rcases Nat.lt_or_gt_of_ne hne with hlt | hlt
            · exact ⟨m, n, hlt, hm, hn⟩
            · exact ⟨n, m, hlt, hn, hm⟩
  · intro hfound hnever
    by_cases unnamed : request.payload = [] ∨ request.payloadId = []
    · exact processCounting_of_unnamed unnamed
    · cases hget : client.get (Request.key digests request) schedule.lookupAt db with
      | error e => exact processCounting_of_error hget
      | ok found =>
        cases found with
        | none => exact absurd hget hfound
        | some record =>
          rw [processCounting_of_some unnamed hget, Finset.card_eq_zero, Finset.filter_eq_empty_iff]
          rintro n - ⟨hreached, hasked⟩
          exact hnever n ⟨hreached, asked_prepares_none.mp hasked⟩

end

/-! ### A record that is deleted twice -/

/-- Another client deletes a key. -/
def deletes (codec : Codec) (key : Str) : Others codec where
  change db := db.erase key
  touched k := k == key
  untouched k hk db := by
    rw [OrderedDict.get?_erase, if_neg (by simpa using hk)]

def redisClient : Client := ⟨60, id⟩

/-- The record of `exchange`, in Redis. -/
def exchangeDb : Db Codec.plain :=
  OrderedDict.empty.set (redisClient.key (exchange.key true)) (exchangeExpires, Codec.plain.encode exchanged)

/-- The lookup finds the record. It is deleted after that, and touched again before each of the first two `EXEC`. -/
def deletedTwice : Schedule Codec.plain where
  lookupAt := 1
  attempts n :=
    if n < 2 then ⟨deletes _ (redisClient.key (exchange.key true)), 1, .nothing _, 1,
      deletes _ (redisClient.key (exchange.key true)), 1⟩
    else .quiet _ 1

theorem prepared_again : ¬ (processCounting exchange.digests (exchange.request true) (fun _ => emailOnly) redisClient
    deletedTwice exchangeDb).2 ≤ 1 := by
  have hcount : (processCounting exchange.digests (exchange.request true) (fun _ => emailOnly) redisClient
    deletedTwice exchangeDb).2 = 3 := by decide +kernel
  rw [hcount]
  decide

end PiiProxy.ProcessService
