import Mathlib.Algebra.Order.Field.Rat
import PiiProxy.Lib.ExpiringDict
import PiiProxy.Restoration.Models

/-! The in-memory restoration store (`app/restoration/memory.py`). Each operation takes the readings of
    `time.monotonic()` that it makes, in their order. `transition` holds the data lock twice, for
    `transitionRead` and for `transitionWrite`, and runs the callback in between. -/

namespace PiiProxy

/-- A reading of `time.monotonic()`, in seconds. -/
abbrev Time := Rat

structure InMemoryRestorationStore (codec : Codec) where
  ttlSeconds : Int
  maxEntries : Int
  data : OrderedDict Str (Time × codec.Token)

namespace InMemoryRestorationStore
variable {codec : Codec}

def new (codec : Codec) (ttlSeconds maxEntries : Int) : InMemoryRestorationStore codec where
  ttlSeconds
  maxEntries
  data := OrderedDict.empty

def capacityExceeded : PIIProxyError := .serviceOverloaded "restoration store capacity exceeded" 1

section Operations
variable (store : InMemoryRestorationStore codec) (payloadId : Str)

/-- `_evict_expired_locked` -/
def evictExpired (now : Time) : InMemoryRestorationStore codec :=
  { store with data := ExpiringDict.evict store.data now }

/-- `del self._data[payload_id]`, `self._data.pop(payload_id, None)` -/
def drop : InMemoryRestorationStore codec := { store with data := store.data.erase payloadId }

def get (now : Time) : Except PIIProxyError (Option RestorationState) × InMemoryRestorationStore codec :=
  match store.data.get? payloadId with
  | none => (.ok none, store)
  | some (expiresAt, encrypted) =>
    if now ≥ expiresAt then (.ok none, store.drop payloadId)
    else ((codec.decode payloadId encrypted).map some, store)

/-- The capacity check of `save` and `transition`. -/
def isFull : Bool := !store.data.contains payloadId && decide ((store.data.length : Int) ≥ store.maxEntries)

/-- The end of `save` and `transition`: an entry that is there moves to the end, and the new one is stored. -/
def put (state : RestorationState) (now : Time) : InMemoryRestorationStore codec :=
  { store with data := ExpiringDict.push store.data payloadId (now + store.ttlSeconds, codec.encode state) }

def save (state : RestorationState) (evictAt writeAt : Time) :
    Except PIIProxyError Unit × InMemoryRestorationStore codec :=
  let store := store.evictExpired evictAt
  if store.isFull payloadId then (.error capacityExceeded, store)
  else (.ok (), store.put payloadId state writeAt)

def delete : InMemoryRestorationStore codec := store.drop payloadId

def transitionRead (evictAt readAt : Time) :
    Except PIIProxyError (Option RestorationState) × InMemoryRestorationStore codec :=
  let store := store.evictExpired evictAt
  match store.data.get? payloadId with
  | none => (.ok none, store)
  | some (expiresAt, encrypted) =>
    if readAt < expiresAt then ((codec.decode payloadId encrypted).map some, store)
    else (.ok none, store.drop payloadId)

def transitionWrite (newState : Option RestorationState) (writeAt : Time) :
    Except PIIProxyError (Option RestorationState) × InMemoryRestorationStore codec :=
  match newState with
  | none => (.ok none, store.drop payloadId)
  | some state =>
    if store.isFull payloadId then (.error capacityExceeded, store)
    else (.ok (some state), store.put payloadId state writeAt)

def transition (fn : TransitionFn) (evictAt readAt writeAt : Time) :
    Except PIIProxyError (Option RestorationState) × InMemoryRestorationStore codec :=
  match store.transitionRead payloadId evictAt readAt with
  | (.error e, store) => (.error e, store)
  | (.ok current, store) =>
    match fn current with
    | .error e => (.error e, store)
    | .ok newState => store.transitionWrite payloadId newState writeAt

end Operations

/-! ### What an operation does -/

section Effects
variable (store : InMemoryRestorationStore codec) (k : Str)

/-- The record that the store holds for a key at a time. -/
def recordAt (now : Time) : Except PIIProxyError (Option RestorationState) :=
  match ExpiringDict.live now (store.data.get? k) with
  | none => .ok none
  | some encrypted => (codec.decode k encrypted).map some

omit store in
theorem recordAt_new (codec : Codec) (ttlSeconds maxEntries : Int) (now : Time) :
    (new codec ttlSeconds maxEntries).recordAt k now = .ok none := rfl

/-- A lookup answers with the record, and at most removes the entry of its key when it has expired. -/
theorem get_spec (now : Time) :
    (store.get k now).1 = store.recordAt k now ∧
      ((store.get k now).2 = store ∨
        (store.get k now).2 = store.drop k ∧ ∃ p, store.data.get? k = some p ∧ p.1 ≤ now) := by
  unfold get recordAt
  cases h : store.data.get? k with
  | none => exact ⟨rfl, Or.inl rfl⟩
  | some p =>
    obtain ⟨expiresAt, encrypted⟩ := p
    by_cases hexp : now ≥ expiresAt
    · have hlive : ExpiringDict.live now (some (expiresAt, encrypted)) = none := by
        simp [ExpiringDict.live, not_lt.mpr hexp]
      exact ⟨by simp [hexp, hlive], Or.inr ⟨by simp [hexp], _, rfl, hexp⟩⟩
    · have hlive : ExpiringDict.live now (some (expiresAt, encrypted)) = some encrypted := by
        simp [ExpiringDict.live, not_le.mp hexp]
      exact ⟨by simp [hexp, hlive], Or.inl (by simp [hexp])⟩

theorem transitionRead_eq (evictAt readAt : Time) :
    store.transitionRead k evictAt readAt = (store.evictExpired evictAt).get k readAt := by
  unfold transitionRead get
  dsimp only
  cases (store.evictExpired evictAt).data.get? k with
  | none => rfl
  | some p =>
    by_cases h : readAt < p.1
    · simp [h, not_le.mpr h]
    · simp [h, not_lt.mp h]

/-- `store'` lacks nothing of `store` but entries that have expired at `t`. -/
structure Purges (t : Time) (store store' : InMemoryRestorationStore codec) : Prop where
  back : ∀ {j p}, store'.data.get? j = some p → store.data.get? j = some p
  live : ∀ {j p}, store.data.get? j = some p → t < p.1 → store'.data.get? j = some p

section Purges
variable {store} {store' store'' : InMemoryRestorationStore codec} {t t' : Time}

theorem Purges.refl (t : Time) (store : InMemoryRestorationStore codec) : Purges t store store := ⟨id, fun h _ => h⟩

theorem Purges.later (h : Purges t store store') (ht : t ≤ t') : Purges t' store store' :=
  ⟨h.back, fun hget hlive => h.live hget (lt_of_le_of_lt ht hlive)⟩

theorem Purges.trans (h : Purges t store store') (h' : Purges t store' store'') : Purges t store store'' :=
  ⟨fun hget => h.back (h'.back hget), fun hget hlive => h'.live (h.live hget hlive) hlive⟩

theorem purges_evict (store : InMemoryRestorationStore codec) (t : Time) : Purges t store (store.evictExpired t) :=
  ⟨ExpiringDict.get?_of_evict, ExpiringDict.get?_evict⟩

theorem purges_drop {p : Time × codec.Token} (hget : store.data.get? k = some p) (hexp : p.1 ≤ t) :
    Purges t store (store.drop k) where
  back {j q} h := by
    rw [drop, OrderedDict.get?_erase] at h
    split at h
    · cases h
    · exact h
  live {j q} h hlive := by
    rw [drop, OrderedDict.get?_erase]
    split
    · rename_i hj
      subst hj
      obtain rfl := Option.some.inj (hget.symm.trans h)
      exact absurd hexp (not_le.mpr hlive)
    · exact h

theorem purges_get (store : InMemoryRestorationStore codec) (k : Str) (t : Time) : Purges t store (store.get k t).2 := by
  rcases (store.get_spec k t).2 with h | ⟨h, p, hget, hexp⟩
  · rw [h]
    exact Purges.refl t store
  · rw [h]
    exact purges_drop k hget hexp

theorem purges_transitionRead (store : InMemoryRestorationStore codec) (k : Str) {evictAt readAt : Time}
    (h : evictAt ≤ readAt) : Purges readAt store (store.transitionRead k evictAt readAt).2 := by
  rw [transitionRead_eq]
  exact ((purges_evict store evictAt).later h).trans (purges_get _ k readAt)

theorem Purges.get?_of_live (h : Purges t store store') (hlive : ∀ p, store.data.get? k = some p → t < p.1) :
    store'.data.get? k = store.data.get? k :=
  Option.ext fun p => ⟨fun hget => h.back hget, fun hget => h.live hget (hlive p hget)⟩

theorem Purges.recordAt (h : Purges t store store') (k : Str) : store'.recordAt k t = store.recordAt k t := by
  have hlive : ExpiringDict.live t (store'.data.get? k) = ExpiringDict.live t (store.data.get? k) := by
    cases hnone : ExpiringDict.live t (store.data.get? k) with
    | none =>
      rw [ExpiringDict.live_eq_none] at hnone ⊢
      exact fun p hp => hnone p (h.back hp)
    | some token =>
      obtain ⟨expires, hget, hlt⟩ := ExpiringDict.live_eq_some.mp hnone
      exact ExpiringDict.live_eq_some.mpr ⟨expires, h.live hget hlt, hlt⟩
  rw [InMemoryRestorationStore.recordAt, InMemoryRestorationStore.recordAt, hlive]

/-- The read of a transition answers with the record that there is at its time. -/
theorem transitionRead_recordAt (store : InMemoryRestorationStore codec) (k : Str) {evictAt readAt : Time}
    (h : evictAt ≤ readAt) : (store.transitionRead k evictAt readAt).1 = store.recordAt k readAt := by
  rw [transitionRead_eq, (get_spec _ k readAt).1, ((purges_evict store evictAt).later h).recordAt]

end Purges

theorem transition_ok {fn : TransitionFn} {evictAt readAt writeAt : Time} {new : Option RestorationState}
    {store' : InMemoryRestorationStore codec}
    (h : store.transition k fn evictAt readAt writeAt = (.ok new, store')) :
    ∃ current, (store.transitionRead k evictAt readAt).1 = .ok current ∧ fn current = .ok new ∧
      (store.transitionRead k evictAt readAt).2.transitionWrite k new writeAt = (.ok new, store') := by
  unfold transition at h
  generalize hread : store.transitionRead k evictAt readAt = r at h
  obtain ⟨current, store₁⟩ := r
  cases current with
  | error e => cases h
  | ok current =>
    dsimp only at h
    cases hfn : fn current with
    | error e =>
      rw [hfn] at h
      cases h
    | ok new' =>
      rw [hfn] at h
      dsimp only at h
      have hnew : new' = new := by
        unfold transitionWrite at h
        cases new' with
        | none =>
          cases h
          rfl
        | some s =>
          dsimp only at h
          split at h
          · cases h
          · cases h
            rfl
      subst hnew
      exact ⟨current, rfl, hfn, h⟩

end Effects

section
variable {store : InMemoryRestorationStore codec} {k j : Str} {t : Time} {p : Time × codec.Token}

/-! ### Capacity -/

/-- A change of a store that keeps its configuration. -/
structure Kept (store store' : InMemoryRestorationStore codec) : Prop where
  ttlSeconds : store'.ttlSeconds = store.ttlSeconds
  maxEntries : store'.maxEntries = store.maxEntries

theorem Kept.refl (store : InMemoryRestorationStore codec) : Kept store store := ⟨rfl, rfl⟩

theorem Kept.trans {store' store'' : InMemoryRestorationStore codec} (h : Kept store store') (h' : Kept store' store'') :
    Kept store store'' :=
  ⟨h'.ttlSeconds.trans h.ttlSeconds, h'.maxEntries.trans h.maxEntries⟩

/-- The store holds no more entries than it may. -/
def Fits (store : InMemoryRestorationStore codec) : Prop := (store.data.length : Int) ≤ store.maxEntries

theorem Fits.evict (h : Fits store) (t : Time) : Fits (store.evictExpired t) :=
  le_trans (Int.ofNat_le.mpr (ExpiringDict.length_evict_le store.data t)) h

theorem Fits.drop (h : Fits store) (k : Str) : Fits (store.drop k) :=
  le_trans (Int.ofNat_le.mpr (List.length_filter_le _ _)) h

/-- A write that finds room adds an entry at most, and that only below the limit. -/
theorem length_put (state : RestorationState) (t : Time) (hroom : store.isFull k = false) :
    (store.put k state t).data.length = store.data.length ∨
      (store.put k state t).data.length = store.data.length + 1 ∧ (store.data.length : Int) < store.maxEntries := by
  cases hc : store.data.contains k with
  | true => exact Or.inl (ExpiringDict.length_push_of_contains hc)
  | false =>
    rw [isFull, hc, Bool.not_false, Bool.true_and, decide_eq_false_iff_not, ge_iff_le, not_le] at hroom
    exact Or.inr ⟨ExpiringDict.length_push_of_new hc, hroom⟩

theorem Fits.put {state : RestorationState} (h : Fits store) (hroom : store.isFull k = false) :
    Fits (store.put k state t) := by
  show ((store.put k state t).data.length : Int) ≤ store.maxEntries
  rcases length_put state t hroom with hlen | ⟨hlen, hlt⟩
  · rw [hlen]
    exact h
  · rw [hlen, Int.natCast_add, Int.natCast_one]
    exact Int.add_one_le_of_lt hlt

theorem get_kept (store : InMemoryRestorationStore codec) (k : Str) (t : Time) :
    Kept store (store.get k t).2 ∧ (Fits store → Fits (store.get k t).2) := by
  rcases (store.get_spec k t).2 with h | ⟨h, -⟩
  · rw [h]
    exact ⟨.refl store, id⟩
  · rw [h]
    exact ⟨⟨rfl, rfl⟩, fun hfits => hfits.drop k⟩

theorem transitionRead_kept (store : InMemoryRestorationStore codec) (k : Str) (evictAt readAt : Time) :
    Kept store (store.transitionRead k evictAt readAt).2 ∧
      (Fits store → Fits (store.transitionRead k evictAt readAt).2) := by
  rw [transitionRead_eq]
  obtain ⟨hkept, hfits⟩ := (store.evictExpired evictAt).get_kept k readAt
  exact ⟨⟨hkept.ttlSeconds, hkept.maxEntries⟩, fun h => hfits (h.evict evictAt)⟩

theorem transitionWrite_kept (store : InMemoryRestorationStore codec) (k : Str) (new : Option RestorationState)
    (writeAt : Time) : Kept store (store.transitionWrite k new writeAt).2 ∧
      (Fits store → Fits (store.transitionWrite k new writeAt).2) := by
  unfold transitionWrite
  cases new with
  | none => exact ⟨⟨rfl, rfl⟩, fun h => h.drop k⟩
  | some state =>
    dsimp only
    split
    · exact ⟨.refl store, id⟩
    · rename_i hroom
      exact ⟨⟨rfl, rfl⟩, fun h => h.put (Bool.eq_false_iff.mpr hroom)⟩

/-- After a transition the store is as its read left it, or as its write left it. -/
theorem transition_after (store : InMemoryRestorationStore codec) (k : Str) (fn : TransitionFn)
    (evictAt readAt writeAt : Time) :
    (store.transition k fn evictAt readAt writeAt).2 = (store.transitionRead k evictAt readAt).2 ∨
      ∃ new, (store.transition k fn evictAt readAt writeAt).2 =
        ((store.transitionRead k evictAt readAt).2.transitionWrite k new writeAt).2 := by
  unfold transition
  generalize store.transitionRead k evictAt readAt = r
  obtain ⟨current, store₁⟩ := r
  cases current with
  | error e => exact Or.inl rfl
  | ok current =>
    dsimp only
    cases fn current with
    | error e => exact Or.inl rfl
    | ok new => exact Or.inr ⟨new, rfl⟩

/-! ### What every operation keeps -/

/-- A property of a store at a time that no locked section breaks. -/
structure Stable (P : Time → InMemoryRestorationStore codec → Prop) : Prop where
  later : ∀ {now t store}, P now store → now ≤ t → P t store
  evict : ∀ {now store}, P now store → ∀ t, P now (store.evictExpired t)
  drop : ∀ {now store}, P now store → ∀ k, P now (store.drop k)
  put : ∀ {now t store k state}, P now store → now ≤ t → store.isFull k = false → P t (store.put k state t)

section Stable
variable {P : Time → InMemoryRestorationStore codec → Prop} {now : Time}

theorem Stable.get (hP : Stable P) (h : P now store) (k : Str) (t : Time) : P now (store.get k t).2 := by
  rcases (store.get_spec k t).2 with hafter | ⟨hafter, -⟩
  · rw [hafter]
    exact h
  · rw [hafter]
    exact hP.drop h k

theorem Stable.transitionRead (hP : Stable P) (h : P now store) (k : Str) (evictAt readAt : Time) :
    P now (store.transitionRead k evictAt readAt).2 := by
  rw [transitionRead_eq]
  exact hP.get (hP.evict h evictAt) k readAt

theorem Stable.save (hP : Stable P) (h : P now store) {writeAt : Time} (hle : now ≤ writeAt) (k : Str)
    (state : RestorationState) (evictAt : Time) : P writeAt (store.save k state evictAt writeAt).2 := by
  unfold InMemoryRestorationStore.save
  dsimp only
  split
  · exact hP.later (hP.evict h evictAt) hle
  · rename_i hroom
    exact hP.put (hP.evict h evictAt) hle (Bool.eq_false_iff.mpr hroom)

theorem Stable.transitionWrite (hP : Stable P) (h : P now store) {writeAt : Time} (hle : now ≤ writeAt) (k : Str)
    (new : Option RestorationState) : P writeAt (store.transitionWrite k new writeAt).2 := by
  unfold InMemoryRestorationStore.transitionWrite
  cases new with
  | none => exact hP.later (hP.drop h k) hle
  | some state =>
    dsimp only
    split
    · exact hP.later h hle
    · rename_i hroom
      exact hP.put h hle (Bool.eq_false_iff.mpr hroom)

theorem Stable.and {Q : Time → InMemoryRestorationStore codec → Prop} (hP : Stable P) (hQ : Stable Q) :
    Stable fun now store => P now store ∧ Q now store where
  later h hle := ⟨hP.later h.1 hle, hQ.later h.2 hle⟩
  evict h t := ⟨hP.evict h.1 t, hQ.evict h.2 t⟩
  drop h k := ⟨hP.drop h.1 k, hQ.drop h.2 k⟩
  put h hle hroom := ⟨hP.put h.1 hle hroom, hQ.put h.2 hle hroom⟩

end Stable

theorem stable_maxEntries (codec : Codec) (n : Int) : @Stable codec fun _ store => store.maxEntries = n where
  later h _ := h
  evict h _ := h
  drop h _ := h
  put h _ _ := h

/-- The entries stand in the order in which they expire, and none lives longer than a new one would. -/
structure Ordered (now : Time) (store : InMemoryRestorationStore codec) : Prop where
  sorted : ExpiringDict.Sorted store.data
  recent : ∀ e ∈ store.data.entries, e.2.1 ≤ now + store.ttlSeconds

theorem Ordered.later {now : Time} (h : Ordered now store) (hle : now ≤ t) : Ordered t store :=
  ⟨h.sorted, fun e he => le_trans (h.recent e he) (add_le_add_left hle _)⟩

theorem Ordered.sublist {now : Time} {store' : InMemoryRestorationStore codec} (h : Ordered now store)
    (hsub : store'.data.entries.Sublist store.data.entries) (hkept : Kept store store') : Ordered now store' :=
  ⟨h.sorted.sublist hsub, fun e he => by rw [hkept.ttlSeconds]; exact h.recent e (hsub.mem he)⟩

theorem Ordered.drop {now : Time} (h : Ordered now store) (k : Str) : Ordered now (store.drop k) :=
  h.sublist List.filter_sublist ⟨rfl, rfl⟩

theorem stable_ordered (codec : Codec) : @Stable codec Ordered where
  later h hle := h.later hle
  evict h t := h.sublist (List.dropWhile_sublist _) ⟨rfl, rfl⟩
  drop h k := h.drop k
  put {now t store k state} h hle _ := by
    refine ⟨h.sorted.push (h.later hle).recent, fun e he => ?_⟩
    rw [InMemoryRestorationStore.put, ExpiringDict.entries_push, List.mem_append, List.mem_singleton] at he
    rcases he with he | rfl
    · exact (h.later hle).recent e (List.mem_filter.mp he).1
    · exact le_refl _

theorem ordered_new (codec : Codec) (ttlSeconds maxEntries : Int) (now : Time) :
    Ordered now (new codec ttlSeconds maxEntries) :=
  ⟨List.Pairwise.nil, fun _ he => absurd he List.not_mem_nil⟩

/-- `Fits`, where the configured number is negative as well. -/
def Bounded (store : InMemoryRestorationStore codec) : Prop := store.data.length ≤ store.maxEntries.toNat

theorem stable_bounded (codec : Codec) : @Stable codec fun _ => Bounded where
  later h _ := h
  evict {now store} h t := le_trans (ExpiringDict.length_evict_le store.data t) h
  drop h k := le_trans (List.length_filter_le _ _) h
  put {now t store k state} h _ hroom := by
    show (store.put k state t).data.length ≤ store.maxEntries.toNat
    have hle : store.data.length ≤ store.maxEntries.toNat := h
    rcases length_put state t hroom with hlen | ⟨hlen, hlt⟩
    · rw [hlen]
      exact hle
    · rw [hlen]
      omega

/-! ### Entries -/

theorem get?_drop (hj : j ≠ k) (h : store.data.get? j = some p) : (store.drop k).data.get? j = some p := by
  rw [drop, OrderedDict.get?_erase, if_neg hj]
  exact h

theorem get?_put_self {state : RestorationState} :
    (store.put k state t).data.get? k = some (t + store.ttlSeconds, codec.encode state) := by
  rw [put, ExpiringDict.get?_push, if_pos rfl]

theorem get?_put {state : RestorationState} (hj : j ≠ k) :
    (store.put k state t).data.get? j = store.data.get? j := by
  rw [put, ExpiringDict.get?_push, if_neg hj]

/-- An entry of a store after a write is the one written, or it was there before. -/
theorem get?_of_put {state : RestorationState} (h : (store.put k state t).data.get? j = some p) :
    j = k ∧ p.2 = codec.encode state ∨ store.data.get? j = some p := by
  rw [put, ExpiringDict.get?_push] at h
  split at h
  · rename_i hj
    obtain rfl := Option.some.inj h
    exact Or.inl ⟨hj, rfl⟩
  · exact Or.inr h

theorem transitionWrite_error {new : Option RestorationState} {writeAt : Time} {e : PIIProxyError}
    (h : (store.transitionWrite k new writeAt).1 = .error e) : (store.transitionWrite k new writeAt).2 = store := by
  unfold transitionWrite at h ⊢
  cases new with
  | none => cases h
  | some state =>
    dsimp only at h ⊢
    split at h
    · rename_i hfull
      rw [if_pos hfull]
    · cases h

theorem isFull_of_transitionWrite {new : Option RestorationState} {writeAt : Time} {e : PIIProxyError}
    (h : (store.transitionWrite k new writeAt).1 = .error e) : store.isFull k = true := by
  unfold transitionWrite at h
  cases new with
  | none => cases h
  | some state =>
    dsimp only at h
    split at h
    · rename_i hfull
      exact hfull
    · cases h

theorem isFull_of_save {state : RestorationState} {evictAt writeAt : Time} {e : PIIProxyError}
    (h : (store.save k state evictAt writeAt).1 = .error e) : (store.evictExpired evictAt).isFull k = true := by
  unfold save at h
  dsimp only at h
  split at h
  · rename_i hfull
    exact hfull
  · cases h

theorem transitionWrite_ok {state : RestorationState} {answer : Option RestorationState}
    {store' : InMemoryRestorationStore codec} (h : store.transitionWrite k (some state) t = (.ok answer, store')) :
    store' = store.put k state t := by
  unfold transitionWrite at h
  dsimp only at h
  split at h
  · cases h
  · exact (congrArg Prod.snd h).symm

theorem get?_transitionWrite {new : Option RestorationState} (hj : j ≠ k) (h : store.data.get? j = some p) :
    (store.transitionWrite k new t).2.data.get? j = some p := by
  unfold transitionWrite
  cases new with
  | none => exact get?_drop hj h
  | some state =>
    dsimp only
    split
    · exact h
    · exact (get?_put hj).trans h

theorem get?_transition {fn : TransitionFn} {evictAt readAt writeAt : Time} (hj : j ≠ k) (hread : evictAt ≤ readAt)
    (h : store.data.get? j = some p) (hlive : readAt < p.1) :
    (store.transition k fn evictAt readAt writeAt).2.data.get? j = some p := by
  have hkept := (purges_transitionRead store k hread).live h hlive
  rcases store.transition_after k fn evictAt readAt writeAt with hafter | ⟨new, hafter⟩
  · rw [hafter]
    exact hkept
  · rw [hafter]
    exact get?_transitionWrite hj hkept

end

end InMemoryRestorationStore

end PiiProxy
