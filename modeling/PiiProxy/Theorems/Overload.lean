import PiiProxy.Restoration.Striped
import PiiProxy.Theorems.StoreAtomicity

/-! # When a new record is rejected

A save evicts under the lock under which it counts the entries. A transition evicts before its callback and counts after
it: an entry that expires in between is still counted. -/

namespace PiiProxy.InMemoryRestorationStore.Striped

section
variable {codec : Codec} {ι : Type} {maxEntries : Int} {a : Attempt codec ι}

/-- The unexpired entries of other keys, when the section ends. -/
def Attempt.unexpiredOthers (a : Attempt codec ι) : Nat :=
  a.tested.data.entries.countP fun e => decide (e.1 ≠ a.payloadId ∧ a.now < e.2.1)

/-- An entry has expired by the end of the section that the section, if it evicts, could not evict. -/
def Attempt.Stale (a : Attempt codec ι) : Prop :=
  ∃ e ∈ a.before.data.entries, e.2.1 ≤ a.now ∧ ∀ t, a.evictAt = some t → t < e.2.1

/-- What an attempt finds, and why it raises. -/
structure Tested (maxEntries : Int) (a : Attempt codec ι) : Prop where
  sorted : ExpiringDict.Sorted a.before.data
  bounded : Bounded a.tested
  maxEntries : a.tested.maxEntries = maxEntries
  refused : ∀ e, a.answer = .error e → a.tested.isFull a.payloadId = true

theorem Tested.mem_tested (h : Tested maxEntries a) {e : Str × Time × codec.Token} :
    e ∈ a.tested.data.entries ↔ e ∈ a.before.data.entries ∧ ∀ t, a.evictAt = some t → t < e.2.1 := by
  unfold Attempt.tested
  cases a.evictAt with
  | none => simp
  | some t =>
    show e ∈ (ExpiringDict.evict a.before.data t).entries ↔ _
    rw [ExpiringDict.entries_evict h.sorted, List.mem_filter]
    simp

theorem Tested.not_stale_iff (h : Tested maxEntries a) : ¬ a.Stale ↔ ∀ e ∈ a.tested.data.entries, a.now < e.2.1 := by
  constructor
  · intro hfresh e he
    by_contra hexp
    obtain ⟨hmem, hkept⟩ := h.mem_tested.mp he
    exact hfresh ⟨e, hmem, not_lt.mp hexp, hkept⟩
  · rintro hlive ⟨e, hmem, hexp, hkept⟩
    exact not_lt.mpr hexp (hlive e (h.mem_tested.mpr ⟨hmem, hkept⟩))

/-- A section that raises finds no entry of its key: all entries count as long as none has expired. -/
theorem Tested.unexpiredOthers_iff (h : Tested maxEntries a) {e : PIIProxyError} (hanswer : a.answer = .error e) :
    a.unexpiredOthers = a.tested.data.length ↔ ¬ a.Stale := by
  have hfull := h.refused e hanswer
  rw [isFull, Bool.and_eq_true, Bool.not_eq_true', OrderedDict.contains_eq_false] at hfull
  rw [h.not_stale_iff, Attempt.unexpiredOthers, OrderedDict.length, List.countP_eq_length]
  constructor
  · intro hall x hx
    exact (of_decide_eq_true (hall x hx)).2
  · intro hlive x hx
    have hother : x.1 ≠ a.payloadId := by
      intro hkey
      exact OrderedDict.get?_eq_none.mp hfull.1 x.2 (hkey ▸ hx)
    exact decide_eq_true ⟨hother, hlive x hx⟩

theorem Tested.full_iff (h : Tested maxEntries a) {e : PIIProxyError} (hanswer : a.answer = .error e) :
    maxEntries ≤ a.unexpiredOthers ↔ ¬ a.Stale := by
  have hfull := h.refused e hanswer
  rw [isFull, Bool.and_eq_true, decide_eq_true_eq, h.maxEntries] at hfull
  have hbounded : a.tested.data.length ≤ a.tested.maxEntries.toNat := h.bounded
  have hle : a.unexpiredOthers ≤ a.tested.data.length := List.countP_le_length
  rw [h.maxEntries] at hbounded
  rw [← h.unexpiredOthers_iff hanswer]
  omega

end

section
variable {codec : Codec} {ι : Type} [DecidableEq ι] {hash : Str → Int} {calls : ι → Str × Call} {maxEntries : Int}
  {s s' : System codec ι} {i : ι}

/-- What holds of the store at any time. -/
def Sound (maxEntries : Int) (now : Time) (store : InMemoryRestorationStore codec) : Prop :=
  Ordered now store ∧ Bounded store ∧ store.maxEntries = maxEntries

theorem stable_sound (codec : Codec) (maxEntries : Int) : @Stable codec (Sound maxEntries) :=
  (stable_ordered codec).and ((stable_bounded codec).and (stable_maxEntries codec maxEntries))

structure Inv (maxEntries : Int) (s : System codec ι) : Prop where
  sound : Sound maxEntries s.now s.store
  attempts : ∀ a ∈ s.attempts, Tested maxEntries a

theorem Inv.moveTo (h : Inv maxEntries s) {phase : Phase} {store : InMemoryRestorationStore codec} {now : Time}
    (hsound : Sound maxEntries now store) : Inv maxEntries (s.moveTo i phase store now) :=
  ⟨hsound, h.attempts⟩

theorem Inv.attempt (h : Inv maxEntries s) {a : Attempt codec ι} {phase : Phase} {store : InMemoryRestorationStore codec}
    (hsound : Sound maxEntries a.now store) (htested : Tested maxEntries a) :
    Inv maxEntries (s.attempt a phase store) := by
  refine ⟨hsound, fun b hb => ?_⟩
  rcases List.mem_append.mp hb with hb | hb
  · exact h.attempts b hb
  · obtain rfl := List.mem_singleton.mp hb
    exact htested

theorem Inv.step (h : Inv maxEntries s) (hstep : Step hash calls s i s') : Inv maxEntries s' := by
  have hstable := stable_sound codec maxEntries
  cases hstep with
  | @get k now _ _ hnow => exact h.moveTo (hstable.get (hstable.later h.sound hnow) k now)
  | @save k state evictAt now answer store _ _ hevict hnow hrun =>
    have hstore : (s.store.save k state evictAt now).2 = store := congrArg Prod.snd hrun
    obtain ⟨hordered, hbounded, hmax⟩ := hstable.evict h.sound evictAt
    refine h.attempt ?_ ⟨h.sound.1.sorted, hbounded, hmax, ?_⟩
    · show Sound maxEntries now store
      rw [← hstore]
      exact hstable.save h.sound (le_trans hevict hnow) k state evictAt
    · intro e hanswer
      have hraised : ((s.store.save k state evictAt now).1.map fun _ => none) = .error e :=
        (congrArg Prod.fst hrun).trans hanswer
      cases hsave : (s.store.save k state evictAt now).1 with
      | ok u =>
        rw [hsave] at hraised
        cases hraised
      | error e' => exact isFull_of_save hsave
  | @delete k _ _ => exact h.moveTo (hstable.drop h.sound k)
  | acquire _ _ _ => exact ⟨h.sound, h.attempts⟩
  | @read k fn evictAt readAt current newState store _ _ hevict hread hfound _ =>
    have hsound := hstable.transitionRead (hstable.later h.sound (le_trans hevict hread)) k evictAt readAt
    rw [hfound] at hsound
    exact h.moveTo hsound
  | @raise k fn evictAt readAt current store e _ _ hevict hread hfound _ =>
    have hsound := hstable.transitionRead (hstable.later h.sound (le_trans hevict hread)) k evictAt readAt
    rw [hfound] at hsound
    exact h.moveTo hsound
  | @write k fn evictAt readAt now newState answer store _ _ hnow hwrite =>
    have hsound := hstable.transitionWrite h.sound hnow k newState
    rw [hwrite] at hsound
    refine h.attempt hsound ⟨h.sound.1.sorted, h.sound.2.1, h.sound.2.2, fun e hanswer => ?_⟩
    exact isFull_of_transitionWrite ((congrArg Prod.fst hwrite).trans hanswer)
  | release _ _ => exact ⟨h.sound, h.attempts⟩

theorem Inv.steps (h : Inv maxEntries s) (hsteps : Relation.ReflTransGen (fun s s' => ∃ i, Step hash calls s i s') s s') :
    Inv maxEntries s' := by
  induction hsteps with
  | refl => exact h
  | tail _ hstep ih =>
    obtain ⟨i, hstep⟩ := hstep
    exact ih.step hstep

end

/-! ### An entry that expires while the callback runs -/

/-- A save under one key, and a transition of another. -/
def rushing (second : Bool) : Str × Call :=
  if second then ("b".toList, .transition keepOrDraft) else ("a".toList, .save saved)

/-- There is room for one entry, for one second. -/
def rushingStart : System Codec.plain Bool := System.start Bool (new Codec.plain 1 1) 0

/-- The transition evicts before the saved entry expires, and tests the capacity after it. -/
theorem rushing_run : ∃ s, Relation.ReflTransGen (fun s s' => ∃ i, Step (fun _ => 0) rushing s i s') rushingStart s ∧
    ∃ a ∈ s.attempts, a.answer = .error capacityExceeded ∧ a.unexpiredOthers = 0 := by
  have hnone : (((new Codec.plain 1 1).save "a".toList saved 0 0).2.transitionRead "b".toList 0 0).1 = .ok none := by
    decide +kernel
  have hrun : Relation.ReflTransGen (fun s s' => ∃ i, Step (fun _ => 0) rushing s i s') rushingStart _ :=
    (((Relation.ReflTransGen.refl.tail
      ⟨false, .save rfl rfl (le_refl 0) (le_refl 0) rfl⟩).tail
      ⟨true, .acquire rfl rfl rfl⟩).tail
      ⟨true, .read rfl rfl (le_refl 0) (le_refl 0) (Prod.ext hnone rfl) rfl⟩).tail
      ⟨true, .write rfl rfl (by decide : (0 : Time) ≤ 2) rfl⟩
  refine ⟨_, hrun, _, List.mem_append_right _ (List.mem_singleton_self _), ?_, ?_⟩
  · decide +kernel
  · decide +kernel

/-! ### Every run -/

/-- In every run, a save or a transition that raises finds `max_entries` unexpired entries of other keys exactly if no
    entry that it counts has expired: a save counts none that had expired when it evicted, a transition counts all that
    there are. So a save is right at the time of its eviction. -/
theorem refused_when_full_iff {ι : Type} [DecidableEq ι] (codec : Codec) (hash : Str → Int)
    (ttlSeconds maxEntries : Int) (start : Time) (calls : ι → Str × Call) (s : System codec ι)
    (run : Relation.ReflTransGen (fun s s' => ∃ i, Step hash calls s i s')
      (System.start ι (new codec ttlSeconds maxEntries) start) s) :
    ∀ a ∈ s.attempts, ∀ e, a.answer = .error e →
      (maxEntries ≤ a.unexpiredOthers ↔ ¬ a.Stale) ∧ (a.evictAt = some a.now → maxEntries ≤ a.unexpiredOthers) := by
  have hstart : Inv maxEntries (System.start ι (new codec ttlSeconds maxEntries) start) :=
    ⟨⟨ordered_new codec ttlSeconds maxEntries start, Nat.zero_le _, rfl⟩, fun a ha => absurd ha List.not_mem_nil⟩
  intro a ha e hanswer
  have hiff := ((hstart.steps run).attempts a ha).full_iff hanswer
  refine ⟨hiff, fun hevict => hiff.mpr ?_⟩
  rintro ⟨x, -, hexp, hkept⟩
  exact not_lt.mpr hexp (hkept a.now hevict)

theorem refused_when_full_iff_rushing : ∃ s : System Codec.plain Bool,
    (∃ a ∈ s.attempts, a.answer = .error capacityExceeded) ∧
      ∀ a ∈ s.attempts, ∀ e, a.answer = .error e →
        (1 ≤ (a.unexpiredOthers : Int) ↔ ¬ a.Stale) ∧ (a.evictAt = some a.now → 1 ≤ (a.unexpiredOthers : Int)) := by
  obtain ⟨s, hrun, a, ha, hanswer, -⟩ := rushing_run
  exact ⟨s, ⟨a, ha, hanswer⟩, refused_when_full_iff Codec.plain (fun _ => 0) 1 1 0 rushing s hrun⟩

theorem rejected_for_expired : ∃ s, Relation.ReflTransGen (fun s s' => ∃ i, Step (fun _ => 0) rushing s i s')
    rushingStart s ∧ ∃ a ∈ s.attempts, a.answer = .error capacityExceeded ∧ ¬ 1 ≤ (a.unexpiredOthers : Int) := by
  obtain ⟨s, hrun, a, ha, hanswer, hnone⟩ := rushing_run
  exact ⟨s, hrun, a, ha, hanswer, by simp [hnone]⟩

end PiiProxy.InMemoryRestorationStore.Striped
