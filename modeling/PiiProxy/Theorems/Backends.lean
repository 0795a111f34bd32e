import PiiProxy.Processing.Backends

/-! # The service does the same over either store

One call after the other, by one clock. The live entries of the in-memory store and those that Redis holds for the keys
of the calls correspond; so every lookup and every transition answers alike, as long as the in-memory store has room. -/

namespace PiiProxy.ProcessService
open RedisRestorationStore

/-- A call of a sequential run. The clock stands still during an operation of the store. -/
structure TimedCall where
  around : Surroundings
  request : Request
  lookupAt : Time
  transitionAt : Time

/-- The readings of the clock from `start` on never decrease. -/
def Clock : Time → List TimedCall → Prop
  | _, [] => True
  | start, call :: calls => start ≤ call.lookupAt ∧ call.lookupAt ≤ call.transitionAt ∧ Clock call.transitionAt calls

/-- One call after the other: each outcome, with the store after it. -/
def runTimed {σ α : Type} (step : TimedCall → σ → α × σ) : List TimedCall → σ → List (α × σ)
  | [], _ => []
  | call :: calls, s => step call s :: runTimed step calls (step call s).2

section
variable (digests : Digests) {codec : Codec}

def memoryCall (call : TimedCall) (store : InMemoryRestorationStore codec) :
    Except PIIProxyError ProcessOutcome × InMemoryRestorationStore codec :=
  process digests call.around call.request
    ⟨call.lookupAt, call.transitionAt, call.transitionAt, call.transitionAt⟩ store

/-- The call has Redis for itself. -/
def redisCall (client : Client) (call : TimedCall) (db : Db codec) : Except PIIProxyError ProcessOutcome × Db codec :=
  processRedis digests call.request (fun _ => call.around) client
    ⟨call.lookupAt, fun _ => Attempt.quiet codec call.transitionAt⟩ db

end

/-- The unexpired records of Redis. -/
def unexpired {codec : Codec} (db : Db codec) (now : Time) : List (Str × Time × codec.Token) :=
  db.entries.filter fun e => now < e.2.1

theorem mem_unexpired {codec : Codec} {db : Db codec} {now : Time} {key : Str} {p : Time × codec.Token}
    (hget : db.get? key = some p) (hlive : now < p.1) : key ∈ (unexpired db now).map (·.1) :=
  List.mem_map.mpr ⟨(key, p), List.mem_filter.mpr ⟨OrderedDict.get?_eq_some.mp hget, by simpa using hlive⟩, rfl⟩

section
variable {codec₁ codec₂ : Codec}

/-- Two entries hold the same record with the same expiry, or whichever is there has expired. -/
structure SameEntry (now : Time) (e₁ : Option (Time × codec₁.Token)) (e₂ : Option (Time × codec₂.Token)) : Prop where
  there : ∀ {expires token}, e₁ = some (expires, token) → now < expires →
    ∃ state, token = codec₁.encode state ∧ e₂ = some (expires, codec₂.encode state)
  back : ∀ {expires token}, e₂ = some (expires, token) → now < expires →
    ∃ state, token = codec₂.encode state ∧ e₁ = some (expires, codec₁.encode state)

variable {now now' : Time} {e₁ : Option (Time × codec₁.Token)} {e₂ : Option (Time × codec₂.Token)}

theorem SameEntry.later (h : SameEntry now e₁ e₂) (hle : now ≤ now') : SameEntry now' e₁ e₂ :=
  ⟨fun he hlive => h.there he (lt_of_le_of_lt hle hlive), fun he hlive => h.back he (lt_of_le_of_lt hle hlive)⟩

theorem SameEntry.some (now expires : Time) (state : RestorationState) :
    SameEntry now (some (expires, codec₁.encode state)) (some (expires, codec₂.encode state)) := by
  constructor
  · rintro _ _ ⟨⟩ -
    exact ⟨state, rfl, rfl⟩
  · rintro _ _ ⟨⟩ -
    exact ⟨state, rfl, rfl⟩

end

section
variable {codec₁ codec₂ : Codec} {client : Client} {keys : Set Str} {now now' : Time}
  {store store' : InMemoryRestorationStore codec₁} {db : Db codec₂} {k : Str}
open InMemoryRestorationStore

/-- A lookup answers alike. -/
theorem SameEntry.get (h : SameEntry now (store.data.get? k) (db.get? (client.key k))) :
    store.recordAt k now = client.get k now db := by
  rw [recordAt, Client.get, RedisRestorationStore.read]
  cases hlive : ExpiringDict.live now (store.data.get? k) with
  | some token =>
    obtain ⟨expires, hget, hlt⟩ := ExpiringDict.live_eq_some.mp hlive
    obtain ⟨state, rfl, hget'⟩ := h.there hget hlt
    rw [ExpiringDict.live_eq_some.mpr ⟨expires, hget', hlt⟩]
    simp [decodeValue]
  | none =>
    have hnone : ExpiringDict.live now (db.get? (client.key k)) = none := by
      refine ExpiringDict.live_eq_none.mpr fun p hget' => not_lt.mp fun hlt => ?_
      obtain ⟨state, -, hget⟩ := h.back hget' hlt
      exact absurd (ExpiringDict.live_eq_none.mp hlive _ hget) (not_le.mpr hlt)
    rw [hnone]
    rfl

/-- The two stores after some of the calls, whose keys are `keys`. The in-memory store is sorted by expiry, so that its
    eviction removes all that has expired. -/
structure Corresponds (client : Client) (keys : Set Str) (now : Time) (store : InMemoryRestorationStore codec₁)
    (db : Db codec₂) : Prop where
  sorted : ExpiringDict.Sorted store.data
  bounded : ∀ e ∈ store.data.entries, e.2.1 ≤ now + store.ttlSeconds
  known : ∀ e ∈ store.data.entries, e.1 ∈ keys
  ttlSeconds : store.ttlSeconds = client.ttlSeconds
  entries : ∀ k ∈ keys, SameEntry now (store.data.get? k) (db.get? (client.key k))

theorem Corresponds.later (h : Corresponds client keys now store db) (hle : now ≤ now') :
    Corresponds client keys now' store db where
  sorted := h.sorted
  bounded e he := le_trans (h.bounded e he) (add_le_add_left hle _)
  known := h.known
  ttlSeconds := h.ttlSeconds
  entries k hk := (h.entries k hk).later hle

/-- Entries that have expired may go. -/
theorem Corresponds.purges (h : Corresponds client keys now store db) (hpurges : Purges now store store')
    (hsorted : ExpiringDict.Sorted store'.data) (hkept : Kept store store') :
    Corresponds client keys now store' db := by
  have hmem : ∀ e ∈ store'.data.entries, e ∈ store.data.entries := fun e he =>
    OrderedDict.get?_eq_some.mp (hpurges.back (OrderedDict.get?_eq_some.mpr he))
  refine ⟨hsorted, fun e he => ?_, fun e he => h.known e (hmem e he), hkept.ttlSeconds.trans h.ttlSeconds, fun k hk => ?_⟩
  · rw [hkept.ttlSeconds]
    exact h.bounded e (hmem e he)
  · constructor
    · intro expires token hget hlt
      exact (h.entries k hk).there (hpurges.back hget) hlt
    · intro expires token hget hlt
      obtain ⟨state, htoken, hget'⟩ := (h.entries k hk).back hget hlt
      exact ⟨state, htoken, hpurges.live hget' hlt⟩

theorem Corresponds.get (h : Corresponds client keys now store db) (k : Str) :
    Corresponds client keys now (store.get k now).2 db := by
  refine h.purges (purges_get store k now) ?_ (get_kept store k now).1
  rcases (store.get_spec k now).2 with hafter | ⟨hafter, -⟩
  · rw [hafter]
    exact h.sorted
  · rw [hafter]
    exact h.sorted.erase k

theorem Corresponds.evict (h : Corresponds client keys now store db) :
    Corresponds client keys now (store.evictExpired now) db :=
  h.purges (purges_evict store now) (h.sorted.evict now) ⟨rfl, rfl⟩

/-- `SET` with `EX`, and the same on the in-memory store. -/
theorem Corresponds.put (h : Corresponds client keys now store db) (hk : k ∈ keys) (collisionFree : Set.InjOn client.hmac keys)
    (state : RestorationState) :
    Corresponds client keys now (store.put k state now)
      (db.set (client.key k) (now + client.ttlSeconds, codec₂.encode state)) where
  sorted := h.sorted.push h.bounded
  bounded e he := by
    rw [InMemoryRestorationStore.put, ExpiringDict.entries_push, List.mem_append, List.mem_singleton] at he
    rcases he with he | rfl
    · exact h.bounded e (List.mem_filter.mp he).1
    · exact le_refl _
  known e he := by
    rw [InMemoryRestorationStore.put, ExpiringDict.entries_push, List.mem_append, List.mem_singleton] at he
    rcases he with he | rfl
    · exact h.known e (List.mem_filter.mp he).1
    · exact hk
  ttlSeconds := h.ttlSeconds
  entries j hj := by
    rw [InMemoryRestorationStore.put, ExpiringDict.get?_push, OrderedDict.get?_set, h.ttlSeconds]
    by_cases hjk : j = k
    · rw [if_pos hjk, if_pos (congrArg client.key hjk)]
      exact SameEntry.some now _ state
    · rw [if_neg hjk, if_neg fun hkey => hjk (collisionFree hj hk (Client.hmac_eq hkey))]
      exact h.entries j hj

/-- There is room for a record, if Redis with it does not hold too many. -/
theorem Corresponds.room (h : Corresponds client keys now store db) (hk : k ∈ keys)
    (collisionFree : Set.InjOn client.hmac keys) (ttl : 1 ≤ client.ttlSeconds) {token : codec₂.Token}
    (hlive : ∀ e ∈ store.data.entries, now < e.2.1)
    (hroom : ((unexpired (db.set (client.key k) (now + client.ttlSeconds, token)) now).length : Int) ≤ store.maxEntries) :
    store.isFull k = false := by
  have hpositive : now < now + client.ttlSeconds :=
    lt_add_of_pos_right now (Rat.intCast_pos.mpr (lt_of_lt_of_le Int.zero_lt_one ttl))
  by_cases hnew : store.data.contains k = true
  · rw [isFull, hnew]
    rfl
  · have hnodup : ((k :: store.data.entries.map (·.1)).map client.key).Nodup := by
      refine List.Nodup.map_on (fun i hi j hj hij => ?_) (List.nodup_cons.mpr ⟨fun hmem => ?_, store.data.nodup⟩)
      · have hkeys : ∀ i ∈ k :: store.data.entries.map (·.1), i ∈ keys := by
          intro i hi
          rcases List.mem_cons.mp hi with rfl | hi
          · exact hk
          · obtain ⟨e, he, rfl⟩ := List.mem_map.mp hi
            exact h.known e he
        exact collisionFree (hkeys i hi) (hkeys j hj) (Client.hmac_eq hij)
      · exact hnew (OrderedDict.contains_iff.mpr hmem)
    have hsub : (k :: store.data.entries.map (·.1)).map client.key ⊆
        (unexpired (db.set (client.key k) (now + client.ttlSeconds, token)) now).map (·.1) := by
      intro key hkey
      obtain ⟨j, hj, rfl⟩ := List.mem_map.mp hkey
      rcases List.mem_cons.mp hj with rfl | hj
      · exact mem_unexpired (by rw [OrderedDict.get?_set, if_pos rfl]) hpositive
      · obtain ⟨e, he, rfl⟩ := List.mem_map.mp hj
        obtain ⟨state, -, hget⟩ :=
          (h.entries e.1 (h.known e he)).there (OrderedDict.get?_eq_some.mpr he) (hlive e he)
        have hne : client.key e.1 ≠ client.key k := fun hkey => hnew (by
          rw [OrderedDict.contains_iff, ← collisionFree (h.known e he) hk (Client.hmac_eq hkey)]
          exact hj)
        exact mem_unexpired (by rw [OrderedDict.get?_set, if_neg hne, hget]) (hlive e he)
    have hlength := (List.subperm_of_subset hnodup hsub).length_le
    simp only [List.length_map, List.length_cons] at hlength
    have hsmall : ¬ (store.data.length : Int) ≥ store.maxEntries := by
      rw [OrderedDict.length]
      omega
    rw [isFull, decide_eq_false hsmall, Bool.and_false]

theorem kept_transition (store : InMemoryRestorationStore codec₁) (k : Str) (fn : TransitionFn)
    (evictAt readAt writeAt : Time) : Kept store (store.transition k fn evictAt readAt writeAt).2 := by
  have hread := (transitionRead_kept store k evictAt readAt).1
  rcases store.transition_after k fn evictAt readAt writeAt with hafter | ⟨new, hafter⟩
  · rw [hafter]
    exact hread
  · rw [hafter]
    exact hread.trans (transitionWrite_kept _ k new writeAt).1

/-- What the locked read leaves has not expired. -/
theorem live_transitionRead (hsorted : ExpiringDict.Sorted store.data) (k : Str) (now : Time) :
    ∀ e ∈ (store.transitionRead k now now).2.data.entries, now < e.2.1 := by
  intro e he
  rw [transitionRead_eq] at he
  have hmem := (purges_get (store.evictExpired now) k now).back (OrderedDict.get?_eq_some.mpr he)
  rw [OrderedDict.get?_eq_some, evictExpired, ExpiringDict.entries_evict hsorted, List.mem_filter] at hmem
  exact of_decide_eq_true hmem.2

/-- A transition whose callback never removes the record, on both stores at once. -/
theorem Corresponds.transition (h : Corresponds client keys now store db) (hk : k ∈ keys)
    (collisionFree : Set.InjOn client.hmac keys) (ttl : 1 ≤ client.ttlSeconds) {fn : TransitionFn}
    (hfn : ∀ current, fn current ≠ .ok none)
    (hroom : ((unexpired (client.transition k (fun _ => fn) (fun _ => Attempt.quiet codec₂ now) db).2 now).length : Int) ≤
      store.maxEntries) :
    (store.transition k fn now now now).1 =
        (client.transition k (fun _ => fn) (fun _ => Attempt.quiet codec₂ now) db).1 ∧
      Corresponds client keys now (store.transition k fn now now now).2
        (client.transition k (fun _ => fn) (fun _ => Attempt.quiet codec₂ now) db).2 := by
  have hread : Corresponds client keys now (store.transitionRead k now now).2 db := by
    rw [transitionRead_eq]
    exact h.evict.get k
  have hcurrent : (store.transitionRead k now now).1 = client.get k now db := by
    rw [transitionRead_eq, (get_spec _ k now).1]
    exact (h.evict.entries k hk).get
  have hlive := live_transitionRead h.sorted k now
  have hmax := (transitionRead_kept store k now now).1.maxEntries
  rw [transition_quiet] at hroom ⊢
  rw [← hcurrent] at hroom ⊢
  rw [InMemoryRestorationStore.transition]
  generalize store.transitionRead k now now = r at hread hlive hmax hroom ⊢
  obtain ⟨current, store₁⟩ := r
  cases current with
  | error e => exact ⟨rfl, hread⟩
  | ok current =>
    dsimp only [Except.bind] at hread hlive hmax hroom ⊢
    cases hnew : fn current with
    | error e => exact ⟨rfl, hread⟩
    | ok new =>
      cases new with
      | none => exact absurd hnew (hfn current)
      | some state =>
        have hexecute : client.execute k (some state) now db =
            (.ok (some state), db.set (client.key k) (now + client.ttlSeconds, codec₂.encode state)) := by
          rw [Client.execute, if_neg (by omega)]
        rw [hnew] at hroom
        dsimp only at hroom ⊢
        rw [hexecute] at hroom ⊢
        rw [← hmax] at hroom
        have hfull := hread.room hk collisionFree ttl hlive hroom
        have hwrite : store₁.transitionWrite k (some state) now = (.ok (some state), store₁.put k state now) := by
          simp [transitionWrite, hfull]
        rw [hwrite]
        exact ⟨rfl, hread.put hk collisionFree state⟩

/-- A call of `process`, on both stores at once. -/
theorem Corresponds.process {digests : Digests} {call : TimedCall} (h : Corresponds client keys call.lookupAt store db)
    (hle : call.lookupAt ≤ call.transitionAt) (hk : Request.key digests call.request ∈ keys)
    (collisionFree : Set.InjOn client.hmac keys) (ttl : 1 ≤ client.ttlSeconds)
    (hroom : ((unexpired (redisCall digests client call db).2 call.transitionAt).length : Int) ≤ store.maxEntries) :
    (memoryCall digests call store).1 = (redisCall digests client call db).1 ∧
      Corresponds client keys call.transitionAt (memoryCall digests call store).2 (redisCall digests client call db).2 := by
  rw [memoryCall, process_eq]
  rw [redisCall, processRedis] at hroom ⊢
  unfold processOver at hroom ⊢
  split
  · exact ⟨rfl, h.later hle⟩
  · rename_i hne
    rw [if_neg hne] at hroom
    have hfound : (store.get (Request.key digests call.request) call.lookupAt).1 =
        client.get (Request.key digests call.request) call.lookupAt db := by
      rw [(get_spec _ _ _).1]
      exact (h.entries _ hk).get
    have hget := (h.get (Request.key digests call.request)).later hle
    have hmax := (get_kept store (Request.key digests call.request) call.lookupAt).1.maxEntries
    dsimp only at hroom ⊢
    rw [← hfound] at hroom ⊢
    generalize store.get (Request.key digests call.request) call.lookupAt = r at hget hmax hroom ⊢
    obtain ⟨found, store₁⟩ := r
    cases found with
    | error e => exact ⟨rfl, hget⟩
    | ok found =>
      dsimp only at hget hmax hroom ⊢
      cases hprepare : prepareIfNew digests call.around call.request found with
      | error e => exact ⟨rfl, hget⟩
      | ok prepared =>
        rw [hprepare] at hroom
        dsimp only at hroom ⊢
        generalize hredis : client.transition (Request.key digests call.request)
          (fun _ => callback digests call.around call.request prepared) (fun _ => Attempt.quiet codec₂ call.transitionAt)
          db = r at hroom ⊢
        obtain ⟨answer, db₁⟩ := r
        have hroom' : ((unexpired db₁ call.transitionAt).length : Int) ≤ store.maxEntries := by
          cases answer with
          | error e => exact hroom
          | ok state => exact hroom
        obtain ⟨hsame, hafter⟩ := hget.transition hk collisionFree ttl
          (callback_ne_none digests call.around call.request prepared) (by rw [hredis, hmax]; exact hroom')
        rw [hredis] at hsame hafter
        generalize store₁.transition (Request.key digests call.request) (callback digests call.around call.request prepared)
          call.transitionAt call.transitionAt call.transitionAt = r at hsame hafter ⊢
        obtain ⟨answer', store₂⟩ := r
        obtain rfl : answer' = answer := hsame
        cases answer' with
        | error e => exact ⟨rfl, hafter⟩
        | ok state => exact ⟨rfl, hafter⟩

theorem memoryCall_maxEntries (digests : Digests) (call : TimedCall) (store : InMemoryRestorationStore codec₁) :
    (memoryCall digests call store).2.maxEntries = store.maxEntries := by
  have hget := (get_kept store (Request.key digests call.request) call.lookupAt).1
  rw [memoryCall, process_eq]
  rcases processOver_cases with hafter | hafter | ⟨prepared, hresult⟩
  · rw [hafter]
  · rw [hafter]
    exact hget.maxEntries
  · rw [hresult]
    exact (hget.trans (kept_transition _ _ _ _ _ _)).maxEntries

/-- A run, on both stores at once. -/
theorem Corresponds.run {digests : Digests} {calls : List TimedCall} (h : Corresponds client keys now store db)
    (clock : Clock now calls) (hkeys : ∀ call ∈ calls, Request.key digests call.request ∈ keys)
    (collisionFree : Set.InjOn client.hmac keys) (ttl : 1 ≤ client.ttlSeconds)
    (hroom : ∀ call after, (call, after) ∈ calls.zip (runTimed (redisCall digests client) calls db) →
      ((unexpired after.2 call.transitionAt).length : Int) ≤ store.maxEntries) :
    (runTimed (memoryCall digests) calls store).map Prod.fst =
      (runTimed (redisCall digests client) calls db).map Prod.fst := by
  induction calls generalizing now store db with
  | nil => rfl
  | cons call calls ih =>
    obtain ⟨hlookup, htransition, hclock⟩ := clock
    obtain ⟨hsame, hafter⟩ := (h.later hlookup).process htransition (hkeys call List.mem_cons_self) collisionFree ttl
      (hroom call _ List.mem_cons_self)
    have hrest := ih hafter hclock (fun call hcall => hkeys call (List.mem_cons_of_mem _ hcall))
      fun call after hmem => by
        rw [memoryCall_maxEntries]
        exact hroom call after (List.mem_cons_of_mem _ hmem)
    simp only [runTimed, List.map_cons]
    rw [hsame, hrest]

end

/-- The answers over the two stores are the same at every call, whether an outcome or an error: `room` says that after no
    call there are more unexpired records than the in-memory store may hold. -/
theorem same_answers (digests : Digests) (codec₁ codec₂ : Codec) (client : Client) (maxEntries : Int) (start : Time)
    (calls : List TimedCall) (clock : Clock start calls) (ttl : 1 ≤ client.ttlSeconds)
    (collisionFree : Set.InjOn client.hmac {key | ∃ call ∈ calls, Request.key digests call.request = key})
    (room : ∀ call after,
      (call, after) ∈ calls.zip (runTimed (redisCall digests client) calls (OrderedDict.empty : Db codec₂)) →
        ((unexpired after.2 call.transitionAt).length : Int) ≤ maxEntries) :
    (runTimed (memoryCall digests) calls (InMemoryRestorationStore.new codec₁ client.ttlSeconds maxEntries)).map Prod.fst =
      (runTimed (redisCall digests client) calls (OrderedDict.empty : Db codec₂)).map Prod.fst := by
  have hstart : Corresponds client {key | ∃ call ∈ calls, Request.key digests call.request = key} start
      (InMemoryRestorationStore.new codec₁ client.ttlSeconds maxEntries) (OrderedDict.empty : Db codec₂) :=
    ⟨List.Pairwise.nil, nofun, nofun, rfl, fun _ _ => ⟨nofun, nofun⟩⟩
  exact hstart.run clock (fun call hcall => ⟨call, hcall, rfl⟩) collisionFree ttl room

/-- An original, its mask, and another original that comes when the record has expired between lookup and transition. -/
def exampleRun : List TimedCall :=
  [⟨emailOnly, ⟨"a@b.ru".toList, "1".toList, ConsumerPolicy.default⟩, 0, 1⟩,
    ⟨emailOnly, ⟨"*@*.**".toList, "1".toList, ConsumerPolicy.default⟩, 1, 2⟩,
    ⟨emailOnly, ⟨"c@d.ru".toList, "1".toList, ConsumerPolicy.default⟩, 3, 100⟩]

theorem same_answers_example :
    (runTimed (memoryCall Digests.plain) exampleRun (InMemoryRestorationStore.new Codec.plain 60 1)).map Prod.fst =
      (runTimed (redisCall Digests.plain ⟨60, id⟩) exampleRun (OrderedDict.empty : Db Codec.plain)).map Prod.fst := by
  have room : ∀ pair ∈ exampleRun.zip (runTimed (redisCall Digests.plain ⟨60, id⟩) exampleRun
      (OrderedDict.empty : Db Codec.plain)), ((unexpired pair.2.2 pair.1.transitionAt).length : Int) ≤ 1 := by
    decide +kernel
  have clock : Clock 0 exampleRun := by
    refine ⟨?_, ?_, ?_, ?_, ?_, ?_, trivial⟩ <;> decide +kernel
  exact same_answers Digests.plain Codec.plain Codec.plain ⟨60, id⟩ 1 0 exampleRun clock (by decide)
    (fun _ _ _ _ h => h) fun call after hmem => room (call, after) hmem

end PiiProxy.ProcessService
