import PiiProxy.Processing.ProcessService

/-! The lifecycle of a payload id: the table of `README.md`, and what one call of `process` does, as a function of
    the record that the store holds for its key. -/

namespace PiiProxy.ProcessService

/-- The record in another status. -/
def withStatus (record : RestorationState) (status : RestorationStateStatus) : RestorationState :=
  { record with state := status }

section
variable (record : RestorationState) (status status' : RestorationStateStatus)

@[simp] theorem payloadId_withStatus : (withStatus record status).payloadId = record.payloadId := rfl
@[simp] theorem originalHash_withStatus : (withStatus record status).originalHash = record.originalHash := rfl
@[simp] theorem originalText_withStatus : (withStatus record status).originalText = record.originalText := rfl
@[simp] theorem maskedText_withStatus : (withStatus record status).maskedText = record.maskedText := rfl
@[simp] theorem consumerId_withStatus : (withStatus record status).consumerId = record.consumerId := rfl
@[simp] theorem state_withStatus : (withStatus record status).state = status := rfl
@[simp] theorem withStatus_withStatus : withStatus (withStatus record status) status' = withStatus record status' := rfl
@[simp] theorem withStatus_self : withStatus record record.state = record := rfl

@[simp] theorem outcome_withStatus (result : Str) (operation : Operation) :
    outcome result operation (withStatus record status) = outcome result operation record := rfl

end

/-- The table for an id whose record has the given original, mask and status: the operation, the result and the
    status afterwards. `none` is `InvalidPayloadError`. -/
def table (original mask : Str) (status : RestorationStateStatus) (payload : Str) :
    Option (Operation × Str × RestorationStateStatus) :=
  match status with
  | .masked =>
    if payload = original then some (.mask, mask, .masked)
    else if payload = mask then some (.demask, original, .demasked)
    else none
  | .demasked => if payload = mask then some (.demask, original, .demasked) else none

section
variable {digests : Digests} {around : Surroundings} {payload payloadId : Str} {policy : ConsumerPolicy}
  {record state : RestorationState} {prepared current : Option RestorationState}

/-- The callback goes by the table. The comparison of digests stands for one of texts. -/
theorem transition_eq_table (hconsumer : record.consumerId = policy.consumerId)
    (henabled : policy.demaskingEnabled = true)
    (hhash : digests.hashPayload payload = record.originalHash ↔ payload = record.originalText) :
    transition digests around (some record) payload payloadId policy prepared =
      match table record.originalText record.maskedText record.state payload with
      | none => .error mismatch
      | some (_, _, status) => .ok (withStatus record status) := by
  obtain ⟨id, hash, original, mask, mappings, count, types, status, created, expires, consumer⟩ := record
  dsimp only at hconsumer hhash
  subst hconsumer
  simp only [transition, demaskState, henabled, hhash, table, ne_eq, not_true, if_false, Bool.not_true,
    Bool.false_eq_true]
  cases status with
  | masked =>
    simp only [if_true]
    split
    · rfl
    · split
      · rfl
      · rfl
  | demasked =>
    simp only [reduceCtorEq, if_false]
    split
    · rfl
    · rfl

theorem outcomeFromState_of_table {operation : Operation} {result : Str} {status : RestorationStateStatus}
    (h : table record.originalText record.maskedText record.state payload = some (operation, result, status)) :
    outcomeFromState (some (withStatus record status)) = .ok (outcome result operation record) := by
  unfold table at h
  split at h
  · split at h
    · cases h
      rfl
    · split at h
      · cases h
        rfl
      · cases h
  · split at h
    · cases h
      rfl
    · cases h

theorem demasked_of_outcome {out : ProcessOutcome}
    (h : outcomeFromState (some state) = .ok out) (hdemask : out.operation = .demask) : state.state = .demasked := by
  unfold outcomeFromState at h
  dsimp only at h
  split at h
  · obtain rfl := Except.ok.inj h
    cases hdemask
  · rename_i hstate
    cases hstatus : state.state with
    | masked => exact absurd hstatus hstate
    | demasked => rfl

/-- All that the callback can return: the record it prepares, the record it finds for the original again, or the
    record it finds for the mask, which becomes DEMASKED. -/
theorem transition_cases (h : transition digests around current payload payloadId policy prepared = .ok state) :
    current = none ∧ (prepared = some state ∨ prepareMask digests around payload payloadId policy = .ok state) ∨
      ∃ record, current = some record ∧ record.consumerId = policy.consumerId ∧
        (state = record ∧ record.state = .masked ∨
          state = withStatus record .demasked ∧ payload = record.maskedText ∧
            (record.state = .masked → policy.demaskingEnabled = true)) := by
  cases current with
  | none =>
    cases prepared with
    | none => exact Or.inl ⟨rfl, Or.inr h⟩
    | some s =>
      obtain rfl := Except.ok.inj h
      exact Or.inl ⟨rfl, Or.inl rfl⟩
  | some record =>
    refine Or.inr ⟨record, rfl, ?_⟩
    unfold transition at h
    dsimp only at h
    split at h
    · cases h
    · rename_i hconsumer
      refine ⟨not_not.mp hconsumer, ?_⟩
      split at h
      · rename_i hmasked
        split at h
        · exact Or.inl ⟨(Except.ok.inj h).symm, hmasked⟩
        · split at h
          · rename_i hpayload
            unfold demaskState at h
            split at h
            · cases h
            · rename_i henabled
              exact Or.inr ⟨(Except.ok.inj h).symm, hpayload, fun _ => by simpa using henabled⟩
          · cases h
      · rename_i hstatus
        split at h
        · rename_i hpayload
          have hdemasked : record.state = .demasked := by
            cases hstate : record.state with
            | masked => exact absurd hstate hstatus
            | demasked => rfl
          refine Or.inr ⟨?_, hpayload, fun hmasked => absurd hmasked hstatus⟩
          rw [← hdemasked]
          exact (Except.ok.inj h).symm
        · cases h

/-- A call that answers DEMASK has found a record of its consumer whose mask it presents. -/
theorem demask_of_transition (h : transition digests around current payload payloadId policy prepared = .ok state)
    (hprepared : ∀ s, prepared = some s → s.state = .masked) (hdemasked : state.state = .demasked) :
    ∃ record, current = some record ∧ record.consumerId = policy.consumerId ∧ payload = record.maskedText ∧
      (record.state = .masked → policy.demaskingEnabled = true) := by
  rcases transition_cases h with ⟨-, hnew | hnew⟩ | ⟨record, hcurrent, hconsumer, ⟨rfl, hmasked⟩ | ⟨-, hpayload, henabled⟩⟩
  · rw [hprepared state hnew] at hdemasked
    cases hdemasked
  · rw [(prepareMask_spec digests hnew).masked] at hdemasked
    cases hdemasked
  · rw [hmasked] at hdemasked
    cases hdemasked
  · exact ⟨record, hcurrent, hconsumer, hpayload, henabled⟩

end

/-! ### One call over the store -/

/-- The readings of one call follow the clock. -/
structure Readings.Ordered (at_ : Readings) : Prop where
  lookup_le : at_.lookup ≤ at_.evict
  evict_le : at_.evict ≤ at_.read
  read_le : at_.read ≤ at_.write

section
variable {codec : Codec} {digests : Digests} {around : Surroundings} {request : Request} {at_ : Readings}
  {store : InMemoryRestorationStore codec}
open InMemoryRestorationStore

/-- The store as the callback of a call leaves it alone. -/
def storeAtRead (digests : Digests) (request : Request) (at_ : Readings) (store : InMemoryRestorationStore codec) :
    InMemoryRestorationStore codec :=
  ((store.get (Request.key digests request) at_.lookup).2.transitionRead (Request.key digests request) at_.evict at_.read).2

theorem purges_storeAtRead (ordered : at_.Ordered) (request : Request) (store : InMemoryRestorationStore codec) :
    Purges at_.read store (storeAtRead digests request at_ store) := by
  have hlookup := (purges_get store (Request.key digests request) at_.lookup).later
    (le_trans ordered.lookup_le ordered.evict_le)
  exact hlookup.trans (purges_transitionRead _ _ ordered.evict_le)

theorem kept_storeAtRead (digests : Digests) (request : Request) (at_ : Readings)
    (store : InMemoryRestorationStore codec) :
    Kept store (storeAtRead digests request at_ store) :=
  (get_kept store (Request.key digests request) at_.lookup).1.trans (transitionRead_kept _ _ _ _).1

/-- The callback sees the record that the store holds at the time of the read. -/
theorem transitionRead_get (ordered : at_.Ordered) (store : InMemoryRestorationStore codec) (k : Str) :
    ((store.get k at_.lookup).2.transitionRead k at_.evict at_.read).1 = store.recordAt k at_.read := by
  have hlookup := (purges_get store k at_.lookup).later (le_trans ordered.lookup_le ordered.evict_le)
  rw [transitionRead_recordAt _ k ordered.evict_le, hlookup.recordAt]

theorem recordAt_eq_some {k : Str} {t : Time} {record : RestorationState}
    (h : store.recordAt k t = .ok (some record)) :
    ∃ expires token, store.data.get? k = some (expires, token) ∧ t < expires ∧ codec.decode k token = .ok record := by
  unfold recordAt at h
  cases hlive : ExpiringDict.live t (store.data.get? k) with
  | none =>
    rw [hlive] at h
    cases h
  | some token =>
    rw [hlive] at h
    dsimp only at h
    obtain ⟨expires, hget, hlt⟩ := ExpiringDict.live_eq_some.mp hlive
    refine ⟨expires, token, hget, hlt, ?_⟩
    cases hdecode : codec.decode k token with
    | error e =>
      rw [hdecode] at h
      cases h
    | ok r =>
      rw [hdecode] at h
      obtain rfl := Option.some.inj (Except.ok.inj h)
      rfl

theorem recordAt_of_live {k : Str} {t expires : Time} {token : codec.Token} (hget : store.data.get? k = some (expires, token))
    (hlt : t < expires) : store.recordAt k t = (codec.decode k token).map some := by
  rw [recordAt, ExpiringDict.live_eq_some.mpr ⟨expires, hget, hlt⟩]

theorem transitionWrite_of_contains {k : Str} {t : Time} (state : RestorationState) (h : store.data.contains k = true) :
    store.transitionWrite k (some state) t = (.ok (some state), store.put k state t) := by
  simp [transitionWrite, isFull, h]

/-- A call that finds a record: its callback decides, without a mask prepared before. -/
theorem process_of_record (ordered : at_.Ordered) (hpayload : request.payload ≠ []) (hid : request.payloadId ≠ [])
    {record : RestorationState} (h : store.recordAt (Request.key digests request) at_.read = .ok (some record)) :
    process digests around request at_ store =
      match transition digests around (some record) request.payload (Request.key digests request) request.policy none with
      | .error e => (.error e, storeAtRead digests request at_ store)
      | .ok state => (outcomeFromState (some state),
          (storeAtRead digests request at_ store).put (Request.key digests request) state at_.write) := by
  obtain ⟨expires, token, hget, hlt, hdecode⟩ := recordAt_eq_some h
  have hlookup : (store.get (Request.key digests request) at_.lookup).1 = .ok (some record) := by
    rw [(store.get_spec _ at_.lookup).1, recordAt_of_live hget
      (lt_of_le_of_lt (le_trans ordered.lookup_le ordered.evict_le) hlt), hdecode]
    rfl
  have hread := (transitionRead_get ordered store (Request.key digests request)).trans h
  have hcontains : (storeAtRead digests request at_ store).data.contains (Request.key digests request) = true := by
    rw [OrderedDict.contains, (purges_storeAtRead ordered request store).live hget hlt]
    rfl
  unfold process
  rw [if_neg (not_or.mpr ⟨hpayload, hid⟩)]
  dsimp only
  rw [storeAtRead] at hcontains ⊢
  generalize store.get (Request.key digests request) at_.lookup = r at hlookup hread hcontains ⊢
  obtain ⟨found, store₁⟩ := r
  obtain rfl : found = .ok (some record) := hlookup
  dsimp only [prepareIfNew]
  rw [InMemoryRestorationStore.transition]
  dsimp only at hread hcontains ⊢
  generalize store₁.transitionRead (Request.key digests request) at_.evict at_.read = r at hread hcontains ⊢
  obtain ⟨current, store₂⟩ := r
  obtain rfl : current = .ok (some record) := hread
  dsimp only [callback]
  cases transition digests around (some record) request.payload (Request.key digests request) request.policy none with
  | error e => rfl
  | ok state =>
    dsimp only [Except.map]
    rw [transitionWrite_of_contains state hcontains]

/-- A call that succeeds: what its callback saw and made. -/
theorem process_ok (ordered : at_.Ordered) {out : ProcessOutcome}
    (h : (process digests around request at_ store).1 = .ok out) :
    request.payload ≠ [] ∧ request.payloadId ≠ [] ∧ ∃ current prepared state,
      store.recordAt (Request.key digests request) at_.read = .ok current ∧
      (∀ s, prepared = some s →
        prepareMask digests around request.payload (Request.key digests request) request.policy = .ok s) ∧
      transition digests around current request.payload (Request.key digests request) request.policy prepared =
        .ok state ∧
      outcomeFromState (some state) = .ok out ∧
      (process digests around request at_ store).2 =
        (storeAtRead digests request at_ store).put (Request.key digests request) state at_.write := by
  unfold process at h ⊢
  split at h
  · cases h
  · rename_i hne
    obtain ⟨hpayload, hid⟩ := not_or.mp hne
    refine ⟨hpayload, hid, ?_⟩
    rw [if_neg hne]
    have hread := transitionRead_get ordered store (Request.key digests request)
    rw [storeAtRead]
    dsimp only at h ⊢
    generalize store.get (Request.key digests request) at_.lookup = r at h hread ⊢
    obtain ⟨found, store₁⟩ := r
    cases found with
    | error e => cases h
    | ok found =>
      dsimp only at h hread ⊢
      cases hprepare : prepareIfNew digests around request found with
      | error e =>
        rw [hprepare] at h
        cases h
      | ok prepared =>
        rw [hprepare] at h
        dsimp only at h ⊢
        rw [InMemoryRestorationStore.transition] at h ⊢
        generalize store₁.transitionRead (Request.key digests request) at_.evict at_.read = r at h hread ⊢
        obtain ⟨current, store₂⟩ := r
        cases current with
        | error e => cases h
        | ok current =>
          dsimp only [callback] at h hread ⊢
          refine ⟨current, prepared, ?_⟩
          cases htransition : transition digests around current request.payload (Request.key digests request)
              request.policy prepared with
          | error e =>
            rw [htransition] at h
            cases h
          | ok state =>
            rw [htransition] at h
            dsimp only [Except.map] at h ⊢
            refine ⟨state, hread.symm, fun s hs => ?_, rfl, ?_⟩
            · subst hs
              cases found with
              | some _ => cases hprepare
              | none =>
                unfold prepareIfNew at hprepare
                dsimp only at hprepare
                cases hmask : prepareMask digests around request.payload (Request.key digests request)
                    request.policy with
                | error e =>
                  rw [hmask] at hprepare
                  cases hprepare
                | ok s' =>
                  rw [hmask] at hprepare
                  obtain rfl := Option.some.inj (Except.ok.inj hprepare)
                  rfl
            · unfold transitionWrite at h ⊢
              dsimp only at h ⊢
              by_cases hfull : store₂.isFull (Request.key digests request) = true
              · rw [if_pos hfull] at h
                cases h
              · rw [if_neg hfull] at h ⊢
                exact ⟨h, rfl⟩

theorem process_created (ordered : at_.Ordered) {out : ProcessOutcome}
    (hnew : store.recordAt (Request.key digests request) at_.read = .ok none)
    (h : (process digests around request at_ store).1 = .ok out) :
    ∃ record, prepareMask digests around request.payload (Request.key digests request) request.policy = .ok record ∧
      out = outcome record.maskedText .mask record ∧
      (process digests around request at_ store).2.data.get? (Request.key digests request) =
        some (at_.write + store.ttlSeconds, codec.encode record) := by
  obtain ⟨-, -, current, prepared, record, hcurrent, hprepared, htransition, hout, hafter⟩ := process_ok ordered h
  obtain rfl : current = none := Except.ok.inj (hcurrent.symm.trans hnew)
  have hmask : prepareMask digests around request.payload (Request.key digests request) request.policy = .ok record := by
    cases prepared with
    | none => exact htransition
    | some s =>
      obtain rfl := Except.ok.inj htransition
      exact hprepared s rfl
  refine ⟨record, hmask, ?_, ?_⟩
  · rw [outcomeFromState, if_pos (prepareMask_spec digests hmask).masked] at hout
    exact (Except.ok.inj hout).symm
  · have httl := (kept_storeAtRead digests request at_ store).ttlSeconds
    rw [hafter, get?_put_self, httl]

/-- A call on another key leaves an entry alone that has not expired. -/
theorem process_other (ordered : at_.Ordered) {j : Str} {p : Time × codec.Token} (hj : j ≠ Request.key digests request)
    (hget : store.data.get? j = some p) (hlive : at_.read < p.1) :
    (process digests around request at_ store).2.data.get? j = some p := by
  have hlookup := ((purges_get store (Request.key digests request) at_.lookup).later
    (le_trans ordered.lookup_le ordered.evict_le)).live hget hlive
  unfold process
  split
  · exact hget
  · dsimp only
    generalize store.get (Request.key digests request) at_.lookup = r at hlookup ⊢
    obtain ⟨found, store₁⟩ := r
    cases found with
    | error e => exact hlookup
    | ok found =>
      dsimp only
      cases prepareIfNew digests around request found with
      | error e => exact hlookup
      | ok prepared =>
        have hafter : (store₁.transition (Request.key digests request) (callback digests around request prepared)
            at_.evict at_.read at_.write).2.data.get? j = some p := get?_transition hj ordered.evict_le hlookup hlive
        dsimp only at hafter ⊢
        generalize store₁.transition (Request.key digests request) (callback digests around request prepared) at_.evict
          at_.read at_.write = r at hafter ⊢
        obtain ⟨answer, store₂⟩ := r
        cases answer with
        | error e => exact hafter
        | ok state => exact hafter

end

end PiiProxy.ProcessService
