import PiiProxy.Restoration.Memory

/-! # The in-memory store is a map with times

Over whole runs, with a clock that never goes back, the store answers as a map that remembers the last state
committed for each key and the time of the commit. The entries stand in the order in which they expire, so the loop
over the front of the dictionary finds all the expired ones. -/

namespace PiiProxy.InMemoryRestorationStore

/-- One call on the store, with the readings of the clock that it makes. -/
inductive Op where
  | get (payloadId : Str) (now : Time)
  | save (payloadId : Str) (state : RestorationState) (evictAt writeAt : Time)
  | delete (payloadId : Str)
  | transition (payloadId : Str) (fn : TransitionFn) (evictAt readAt writeAt : Time)

namespace Op

def key : Op → Str
  | get k _ | save k _ _ _ | delete k | transition k _ _ _ _ => k

def readings : Op → List Time
  | get _ now => [now]
  | save _ _ evictAt writeAt => [evictAt, writeAt]
  | delete _ => []
  | transition _ _ evictAt readAt writeAt => [evictAt, readAt, writeAt]

/-- The time at which a call that starts at `now` ends. -/
def finish (now : Time) : Op → Time
  | get _ now => now
  | save _ _ _ writeAt => writeAt
  | delete _ => now
  | transition _ _ _ _ writeAt => writeAt

variable {codec : Codec}

/-- The answer of a call and the store after it. -/
def run (op : Op) (store : InMemoryRestorationStore codec) :
    Except PIIProxyError (Option RestorationState) × InMemoryRestorationStore codec :=
  match op with
  | get k now => store.get k now
  | save k state evictAt writeAt => ((store.save k state evictAt writeAt).1.map fun _ => none,
      (store.save k state evictAt writeAt).2)
  | delete k => (.ok none, store.delete k)
  | transition k fn evictAt readAt writeAt => store.transition k fn evictAt readAt writeAt

end Op

/-- The store after the calls of a run. -/
def runAll {codec : Codec} (store : InMemoryRestorationStore codec) (ops : List Op) : InMemoryRestorationStore codec :=
  ops.foldl (fun store op => (op.run store).2) store

/-! ### The map -/

/-- The last state committed for each key that was not deleted since, with the time of the commit. -/
abbrev Committed := Str → Option (Time × RestorationState)

namespace Committed

/-- What a call commits, given its answer. -/
def commit (m : Committed) (op : Op) (answer : Except PIIProxyError (Option RestorationState)) : Committed :=
  match op, answer with
  | .save k state _ writeAt, .ok _ => Function.update m k (some (writeAt, state))
  | .transition k _ _ _ writeAt, .ok (some state) => Function.update m k (some (writeAt, state))
  | .transition k _ _ _ _, .ok none => Function.update m k none
  | .delete k, _ => Function.update m k none
  | _, _ => m

/-- The state that the map has for a key at a time, under that key. -/
def lookup (m : Committed) (ttlSeconds : Int) (payloadId : Str) (now : Time) : Option RestorationState :=
  (m payloadId).bind fun (writeAt, state) => if now < writeAt + ttlSeconds then some { state with payloadId } else none

/-- The commits of a run that starts with `store`. -/
def ofRun {codec : Codec} (m : Committed) (store : InMemoryRestorationStore codec) : List Op → Committed
  | [] => m
  | op :: ops => ofRun (m.commit op (op.run store).1) (op.run store).2 ops

end Committed

/-! ### The store refines the map -/

section
variable {codec : Codec} {store : InMemoryRestorationStore codec} {m : Committed} {now t : Time} {k : Str}

/-- An entry of the map as the store keeps it. -/
def stored (codec : Codec) (ttlSeconds : Int) (entry : Time × RestorationState) : Time × codec.Token :=
  (entry.1 + ttlSeconds, codec.encode entry.2)

structure Refines (now : Time) (store : InMemoryRestorationStore codec) (m : Committed) : Prop where
  agrees : ExpiringDict.Agrees now store.data fun k => (m k).map (stored codec store.ttlSeconds)
  sorted : ExpiringDict.Sorted store.data
  recent : ∀ e ∈ store.data.entries, e.2.1 ≤ now + store.ttlSeconds

theorem refines_new (codec : Codec) (ttlSeconds maxEntries : Int) (now : Time) :
    Refines now (new codec ttlSeconds maxEntries) fun _ => none where
  agrees _ := Or.inl rfl
  sorted := List.Pairwise.nil
  recent _ h := by cases h

theorem stored_update (m : Committed) (ttlSeconds : Int) (k : Str) (entry : Option (Time × RestorationState)) :
    (fun j => (Function.update m k entry j).map (stored codec ttlSeconds)) =
      Function.update (fun j => (m j).map (stored codec ttlSeconds)) k (entry.map (stored codec ttlSeconds)) :=
  Function.comp_update (Option.map (stored codec ttlSeconds)) m k entry

theorem Refines.later (h : Refines now store m) (ht : now ≤ t) : Refines t store m where
  agrees := h.agrees.later ht
  sorted := h.sorted
  recent e he := le_trans (h.recent e he) (add_le_add_left ht _)

theorem Refines.evict (h : Refines now store m) (ht : now ≤ t) : Refines t (store.evictExpired t) m where
  agrees := h.agrees.evict t ht
  sorted := h.sorted.evict t
  recent e he := (h.later ht).recent e ((List.dropWhile_sublist _).mem he)

theorem Refines.delete (h : Refines now store m) (k : Str) : Refines now (store.drop k) (Function.update m k none) where
  agrees := by
    rw [stored_update]
    exact h.agrees.erase k
  sorted := h.sorted.erase k
  recent e he := h.recent e (List.mem_filter.mp he).1

/-- Dropping an expired entry changes nothing in the map. -/
theorem Refines.expire (h : Refines now store m) {p : Time × codec.Token} (hget : store.data.get? k = some p)
    (hexp : p.1 ≤ now) : Refines now (store.drop k) m where
  agrees := h.agrees.expire hget hexp
  sorted := h.sorted.erase k
  recent e he := h.recent e (List.mem_filter.mp he).1

theorem Refines.put (h : Refines now store m) (k : Str) (state : RestorationState) (ht : now ≤ t) :
    Refines t (store.put k state t) (Function.update m k (some (t, state))) where
  agrees := by
    rw [stored_update]
    exact (h.agrees.later ht).push k (stored codec store.ttlSeconds (t, state))
  sorted := h.sorted.push (h.later ht).recent
  recent e he := by
    rw [InMemoryRestorationStore.put, ExpiringDict.entries_push] at he
    rcases List.mem_append.mp he with he | he
    · exact (h.later ht).recent e (List.mem_filter.mp he).1
    · obtain rfl := List.mem_singleton.mp he
      exact le_refl _

/-- The record that the store holds is the state that the map has. -/
theorem Refines.recordAt (h : Refines now store m) (ht : now ≤ t) :
    store.recordAt k t = .ok (m.lookup store.ttlSeconds k t) := by
  rw [InMemoryRestorationStore.recordAt, h.agrees.live ht, Committed.lookup]
  cases m k with
  | none => rfl
  | some entry =>
    by_cases hlive : t < entry.1 + store.ttlSeconds
    · simp [ExpiringDict.live, stored, hlive, Except.map]
    · simp [ExpiringDict.live, stored, hlive]

theorem Refines.get (h : Refines now store m) (ht : now ≤ t) :
    (store.get k t).1 = .ok (m.lookup store.ttlSeconds k t) ∧ Refines t (store.get k t).2 m := by
  obtain ⟨hanswer, hafter⟩ := store.get_spec k t
  refine ⟨by rw [hanswer, h.recordAt ht], ?_⟩
  rcases hafter with hsame | ⟨hdrop, p, hget, hexp⟩
  · rw [hsame]
    exact h.later ht
  · rw [hdrop]
    exact (h.later ht).expire hget hexp

/-- The state that a transition passes to its callback is the one that the map has. -/
theorem Refines.transitionRead {evictAt readAt : Time} (h : Refines now store m) (hevict : now ≤ evictAt)
    (hread : evictAt ≤ readAt) :
    (store.transitionRead k evictAt readAt).1 = .ok (m.lookup store.ttlSeconds k readAt) ∧
      Refines readAt (store.transitionRead k evictAt readAt).2 m := by
  rw [transitionRead_eq]
  exact (h.evict hevict).get hread

theorem Refines.transitionWrite {new : Option RestorationState} {writeAt : Time} {store' : InMemoryRestorationStore codec}
    (h : Refines now store m) (hwrite : now ≤ writeAt)
    (hok : store.transitionWrite k new writeAt = (.ok new, store')) :
    Refines writeAt store' (Function.update m k (new.map fun state => (writeAt, state))) := by
  cases new with
  | none =>
    obtain rfl : store.drop k = store' := congrArg Prod.snd hok
    exact (h.later hwrite).delete k
  | some state =>
    unfold InMemoryRestorationStore.transitionWrite at hok
    dsimp only at hok
    split at hok
    · cases hok
    · obtain rfl : store.put k state writeAt = store' := congrArg Prod.snd hok
      exact h.put k state hwrite

/-- A transition either commits what its callback makes of the current state, or it fails and commits nothing. -/
theorem Refines.transition {fn : TransitionFn} {evictAt readAt writeAt : Time} (h : Refines now store m)
    (hevict : now ≤ evictAt) (hread : evictAt ≤ readAt) (hwrite : readAt ≤ writeAt) :
    Refines writeAt (store.transition k fn evictAt readAt writeAt).2
      (m.commit (.transition k fn evictAt readAt writeAt) (store.transition k fn evictAt readAt writeAt).1) := by
  obtain ⟨-, hafter⟩ := h.transitionRead (k := k) hevict hread
  cases hanswer : (store.transition k fn evictAt readAt writeAt).1 with
  | ok new =>
    have hpair : store.transition k fn evictAt readAt writeAt =
        (.ok new, (store.transition k fn evictAt readAt writeAt).2) := by rw [← hanswer]
    obtain ⟨current, -, -, hwrite'⟩ := transition_ok store k hpair
    have hrefines := hafter.transitionWrite hwrite hwrite'
    cases new with
    | none => exact hrefines
    | some state => exact hrefines
  | error e =>
    show Refines writeAt _ m
    have hkept : (store.transition k fn evictAt readAt writeAt).2 = (store.transitionRead k evictAt readAt).2 := by
      unfold InMemoryRestorationStore.transition at hanswer ⊢
      generalize store.transitionRead k evictAt readAt = r at hanswer ⊢
      obtain ⟨current, store₁⟩ := r
      cases current with
      | error e' => rfl
      | ok current =>
        dsimp only at hanswer ⊢
        cases hfn : fn current with
        | error e' => rfl
        | ok new =>
          rw [hfn] at hanswer
          exact transitionWrite_error hanswer
    rw [hkept]
    exact hafter.later hwrite

theorem Refines.save {state : RestorationState} {evictAt writeAt : Time} (h : Refines now store m)
    (hevict : now ≤ evictAt) (hwrite : evictAt ≤ writeAt) :
    Refines writeAt (store.save k state evictAt writeAt).2
      (m.commit (.save k state evictAt writeAt) ((store.save k state evictAt writeAt).1.map fun _ => none)) := by
  have hafter := h.evict hevict
  unfold InMemoryRestorationStore.save
  dsimp only
  split
  · exact hafter.later hwrite
  · exact hafter.put k state hwrite

theorem Refines.step (h : Refines now store m) (op : Op) (clock : (now :: op.readings).Pairwise (· ≤ ·)) :
    Refines (op.finish now) (op.run store).2 (m.commit op (op.run store).1) := by
  cases op with
  | get k t =>
    simp only [Op.readings, List.pairwise_cons, List.mem_singleton, forall_eq] at clock
    exact (h.get clock.1).2
  | save k state evictAt writeAt =>
    simp only [Op.readings, List.pairwise_cons, List.mem_cons, forall_eq_or_imp, List.not_mem_nil, or_false,
      forall_eq] at clock
    exact h.save clock.1.1 clock.2.1
  | delete k => exact h.delete k
  | transition k fn evictAt readAt writeAt =>
    simp only [Op.readings, List.pairwise_cons, List.mem_cons, forall_eq_or_imp, List.not_mem_nil, or_false,
      forall_eq] at clock
    exact h.transition clock.1.1 clock.2.1.1 clock.2.2.1

theorem Op.finish_mem (now : Time) (op : Op) : op.finish now ∈ now :: op.readings := by
  cases op <;> simp [Op.finish, Op.readings]

theorem Refines.run (h : Refines now store m) (ops : List Op)
    (clock : (now :: ops.flatMap Op.readings).Pairwise (· ≤ ·)) :
    ∃ t ∈ now :: ops.flatMap Op.readings, Refines t (runAll store ops) (Committed.ofRun m store ops) := by
  induction ops generalizing now store m with
  | nil => exact ⟨now, List.mem_cons_self, h⟩
  | cons op ops ih =>
    rw [List.flatMap_cons, ← List.cons_append] at clock ⊢
    obtain ⟨hop, hops, hbetween⟩ := List.pairwise_append.mp clock
    obtain ⟨t, ht, hrun⟩ := ih (h.step op hop) (List.pairwise_cons.mpr ⟨hbetween _ (op.finish_mem now), hops⟩)
    refine ⟨t, ?_, hrun⟩
    rcases List.mem_cons.mp ht with rfl | ht
    · exact List.mem_append_left _ (op.finish_mem now)
    · exact List.mem_append_right _ ht

/-! ### Capacity and other keys -/

theorem Op.run_kept (op : Op) (store : InMemoryRestorationStore codec) :
    Kept store (op.run store).2 ∧ (Fits store → Fits (op.run store).2) := by
  cases op with
  | get k t => exact store.get_kept k t
  | save k state evictAt writeAt =>
    show Kept store (store.save k state evictAt writeAt).2 ∧ (Fits store → Fits (store.save k state evictAt writeAt).2)
    unfold InMemoryRestorationStore.save
    dsimp only
    split
    · exact ⟨⟨rfl, rfl⟩, fun h => h.evict evictAt⟩
    · rename_i hroom
      exact ⟨⟨rfl, rfl⟩, fun h => (h.evict evictAt).put (Bool.eq_false_iff.mpr hroom)⟩
  | delete k => exact ⟨⟨rfl, rfl⟩, fun h => h.drop k⟩
  | transition k fn evictAt readAt writeAt =>
    obtain ⟨hread, hreadFits⟩ := store.transitionRead_kept k evictAt readAt
    rcases store.transition_after k fn evictAt readAt writeAt with h | ⟨new, h⟩
    · show Kept store (store.transition k fn evictAt readAt writeAt).2 ∧ _
      rw [Op.run, h]
      exact ⟨hread, hreadFits⟩
    · obtain ⟨hwrite, hwriteFits⟩ := (store.transitionRead k evictAt readAt).2.transitionWrite_kept k new writeAt
      rw [Op.run, h]
      exact ⟨hread.trans hwrite, fun hfits => hwriteFits (hreadFits hfits)⟩

theorem runAll_kept (store : InMemoryRestorationStore codec) (ops : List Op) :
    Kept store (runAll store ops) ∧ (Fits store → Fits (runAll store ops)) := by
  induction ops generalizing store with
  | nil => exact ⟨.refl store, id⟩
  | cons op ops ih =>
    obtain ⟨hstep, hstepFits⟩ := op.run_kept store
    obtain ⟨hrest, hrestFits⟩ := ih (op.run store).2
    exact ⟨hstep.trans hrest, fun h => hrestFits (hstepFits h)⟩

/-- A call leaves the entries of other keys alone, unless they have expired. -/
theorem Op.get?_run {j : Str} {p : Time × codec.Token} (op : Op) (clock : op.readings.Pairwise (· ≤ ·)) (hj : j ≠ op.key) (h : store.data.get? j = some p)
    (hlive : ∀ r ∈ op.readings, r < p.1) : (op.run store).2.data.get? j = some p := by
  cases op with
  | get k t => exact (purges_get store k t).live h (hlive t List.mem_cons_self)
  | save k state evictAt writeAt =>
    have hkept := (purges_evict store evictAt).live h (hlive evictAt List.mem_cons_self)
    show (store.save k state evictAt writeAt).2.data.get? j = some p
    unfold InMemoryRestorationStore.save
    dsimp only
    split
    · exact hkept
    · exact (get?_put hj).trans hkept
  | delete k => exact get?_drop hj h
  | transition k fn evictAt readAt writeAt =>
    simp only [Op.readings, List.pairwise_cons, List.mem_cons, forall_eq_or_imp] at clock
    exact get?_transition hj clock.1.1 h (hlive readAt (List.mem_cons_of_mem _ List.mem_cons_self))

/-- After every run: (a) the entries stand in the order of their expiry, and eviction removes exactly the expired
    ones; (b) there are at most `maxEntries` of them; (c) a lookup, and the read of a transition for its callback,
    give the last state committed for the key unless it was deleted or has expired; (d) no call on one key touches an
    entry of another that has not expired. -/
theorem refines_map (codec : Codec) (ttlSeconds maxEntries : Int) (start : Time) (ops : List Op)
    (clock : (start :: ops.flatMap Op.readings).Pairwise (· ≤ ·)) :
    let store := runAll (new codec ttlSeconds maxEntries) ops
    let committed := Committed.ofRun (fun _ => none) (new codec ttlSeconds maxEntries) ops
    (ExpiringDict.Sorted store.data ∧
        ∀ now, (store.evictExpired now).data.entries = store.data.entries.filter fun e => now < e.2.1) ∧
      (0 ≤ maxEntries → (store.data.length : Int) ≤ maxEntries) ∧
      (∀ k now, (∀ r ∈ start :: ops.flatMap Op.readings, r ≤ now) →
        (store.get k now).1 = .ok (committed.lookup ttlSeconds k now) ∧
          ∀ readAt, now ≤ readAt →
            (store.transitionRead k now readAt).1 = .ok (committed.lookup ttlSeconds k readAt)) ∧
      ∀ (op : Op) j p, op.readings.Pairwise (· ≤ ·) → j ≠ op.key → store.data.get? j = some p →
        (∀ r ∈ op.readings, r < p.1) → (op.run store).2.data.get? j = some p := by
  intro store committed
  obtain ⟨t, ht, hrun⟩ := (refines_new codec ttlSeconds maxEntries start).run ops clock
  obtain ⟨hkept, hfits⟩ := (new codec ttlSeconds maxEntries).runAll_kept ops
  have httl : store.ttlSeconds = ttlSeconds := hkept.ttlSeconds
  have hmax : store.maxEntries = maxEntries := hkept.maxEntries
  have hsorted : ExpiringDict.Sorted store.data := hrun.sorted
  refine ⟨⟨hsorted, fun now => ExpiringDict.entries_evict hsorted now⟩, fun hzero => ?_, fun k now hnow => ?_,
    fun op j p hclock hj h hlive => op.get?_run hclock hj h hlive⟩
  · rw [← hmax]
    exact hfits hzero
  · rw [← httl]
    have hlate : t ≤ now := hnow t ht
    exact ⟨(hrun.get hlate).1, fun readAt hread => (hrun.transitionRead hlate hread).1⟩

/-- A state that was saved is found again while it lives. -/
theorem refines_map_save :
    ((runAll (new Codec.plain 60 1) [.save "a".toList ⟨"a".toList, "h".toList, "b".toList, "*".toList, [], 0, [],
        .masked, ⟨0⟩, none, []⟩ 0 0]).get "a".toList 1).1 =
      .ok (some ⟨"a".toList, "h".toList, "b".toList, "*".toList, [], 0, [], .masked, ⟨0⟩, none, []⟩) := by
  obtain ⟨-, -, hlookup, -⟩ := refines_map Codec.plain 60 1 0 [.save "a".toList ⟨"a".toList, "h".toList, "b".toList,
    "*".toList, [], 0, [], .masked, ⟨0⟩, none, []⟩ 0 0] (by decide)
  exact (hlookup "a".toList 1 (by decide)).1.trans (by decide +kernel)

end

end PiiProxy.InMemoryRestorationStore
