import PiiProxy.Processing.Backends
import PiiProxy.Theorems.Isolation

/-! # A call that raises leaves the records alone

Whatever made it raise and wherever it did: in memory nothing goes but entries that have expired, and Redis ends up with
what the other clients alone have made of it. -/

namespace PiiProxy.ProcessService
open InMemoryRestorationStore RedisRestorationStore

section
variable {codec : Codec} {store : InMemoryRestorationStore codec} {k : Str} {fn : TransitionFn}
  {evictAt readAt writeAt t : Time}

/-- The read of a transition takes away what has expired. -/
theorem purges_read (hevict : evictAt ≤ t) (hread : readAt ≤ t) :
    Purges t store (store.transitionRead k evictAt readAt).2 := by
  rw [transitionRead_eq]
  exact ((purges_evict store evictAt).later hevict).trans ((purges_get _ k readAt).later hread)

/-- A transition that raises does no more: the callback has raised, or the store is full. -/
theorem purges_of_error {e : PIIProxyError} (h : (store.transition k fn evictAt readAt writeAt).1 = .error e)
    (hevict : evictAt ≤ t) (hread : readAt ≤ t) : Purges t store (store.transition k fn evictAt readAt writeAt).2 := by
  have hpurges : Purges t store (store.transitionRead k evictAt readAt).2 := purges_read hevict hread
  unfold InMemoryRestorationStore.transition at h ⊢
  generalize store.transitionRead k evictAt readAt = r at h hpurges ⊢
  obtain ⟨current, store₁⟩ := r
  cases current with
  | error e => exact hpurges
  | ok current =>
    dsimp only at h ⊢
    cases hfn : fn current with
    | error e => exact hpurges
    | ok new =>
      rw [hfn] at h
      dsimp only at h ⊢
      rw [transitionWrite_error h]
      exact hpurges

end

/-- The in-memory store keeps every entry that has not expired and gets none; Redis has seen the changes of the others up
    to some point, and no other. -/
theorem process_error_atomic (digests : Digests) (request : Request) :
    (∀ (codec : Codec) (around : Surroundings) (at_ : Readings) (store : InMemoryRestorationStore codec) (now : Time) e,
        (process digests around request at_ store).1 = .error e →
        at_.lookup ≤ now → at_.evict ≤ now → at_.read ≤ now →
        Purges now store (process digests around request at_ store).2) ∧
      ∀ (codec : Codec) (arounds : Nat → Surroundings) (client : Client) (schedule : Schedule codec) (db : Db codec) e,
        (processRedis digests request arounds client schedule db).1 = .error e →
        ∃ changes, changes <+: (List.range maxCasRetries).flatMap (fun n => (schedule.attempts n).changes) ∧
          (processRedis digests request arounds client schedule db).2 = applyChanges changes db := by
  constructor
  · intro codec around at_ store now e h hlookup hevict hread
    rw [process_eq] at h ⊢
    have hget := (purges_get store (Request.key digests request) at_.lookup).later hlookup
    rcases processOver_error h with hafter | hafter | ⟨prepared, hafter, ⟨e, herror⟩ | hnone⟩
    · rw [hafter]
      exact Purges.refl now store
    · rw [hafter]
      exact hget
    · rw [hafter]
      exact hget.trans (purges_of_error herror hevict hread)
    · obtain ⟨current, -, hcallback, -⟩ := InMemoryRestorationStore.transition_ok _ _ (Prod.ext hnone rfl)
      exact absurd hcallback (callback_ne_none digests around request prepared current)
  · intro codec arounds client schedule db e h
    rw [processRedis] at h ⊢
    rcases processOver_error h with hafter | hafter | ⟨prepared, hafter, ⟨e, herror⟩ | hnone⟩
    · exact ⟨[], List.nil_prefix, hafter⟩
    · exact ⟨[], List.nil_prefix, hafter⟩
    · rw [hafter]
      exact transition_error (Prod.ext herror rfl)
    · obtain ⟨n, current, hcallback⟩ := RedisRestorationStore.transition_ok (Prod.ext hnone rfl)
      exact absurd hcallback (callback_ne_none digests (arounds n) request prepared current)

/-- A store that is full of the record of `exchange`. -/
def fullStore : InMemoryRestorationStore Codec.plain := { exchangeStore with maxEntries := 1 }

def otherRequest : Request := ⟨"a@b.ru".toList, "2".toList, ConsumerPolicy.default⟩

/-- Somebody writes the same again between any two commands. -/
def busy (codec : Codec) : Others codec where
  change := id
  touched _ := true
  untouched _ h := nomatch h

def contended : Schedule Codec.plain where
  lookupAt := 0
  attempts _ := ⟨busy _, 0, busy _, 0, busy _, 0⟩

/-- The full store refuses a record of another id, and contention makes the call over Redis give up. -/
theorem process_error_atomic_overloaded :
    Purges 1 fullStore (process Digests.plain emailOnly otherRequest ⟨1, 1, 1, 1⟩ fullStore).2 ∧
      ∃ changes, changes <+: (List.range maxCasRetries).flatMap (fun n => (contended.attempts n).changes) ∧
        (processRedis Digests.plain otherRequest (fun _ => emailOnly) ⟨60, id⟩ contended OrderedDict.empty).2 =
          applyChanges changes OrderedDict.empty := by
  obtain ⟨hmemory, hredis⟩ := process_error_atomic Digests.plain otherRequest
  have hfull : (process Digests.plain emailOnly otherRequest ⟨1, 1, 1, 1⟩ fullStore).1 = .error capacityExceeded := by
    decide +kernel
  have hcontended : (processRedis Digests.plain otherRequest (fun _ => emailOnly) ⟨60, id⟩ contended
      OrderedDict.empty).1 = .error contention := by decide +kernel
  exact ⟨hmemory _ _ _ _ 1 _ hfull (le_refl 1) (le_refl 1) (le_refl 1), hredis _ _ _ _ _ _ hcontended⟩

end PiiProxy.ProcessService
