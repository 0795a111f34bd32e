import Mathlib.Data.List.Permutation
import PiiProxy.Restoration.Interleaved

/-! # When a transition of the in-memory store is atomic

Its two sections act as one as long as nothing happens to the key between them. The stripe lock keeps other transitions
out, but no save, delete or lookup: what they do in between is overwritten with what the callback made of the older
record. -/

namespace PiiProxy.InMemoryRestorationStore
open History

section
variable {codec : Codec} {store store' : InMemoryRestorationStore codec} {k : Str} {t evictAt readAt : Time}

/-! ### A lookup between the two sections -/

theorem drop_of_none (h : store.data.get? k = none) : store.drop k = store := by
  have hentries : (store.data.erase k).entries = store.data.entries := by
    rw [OrderedDict.erase, List.filter_eq_self]
    intro e he
    have hne : e.1 ≠ k := by
      rintro rfl
      exact OrderedDict.get?_eq_none.mp h e.2 he
    simpa using hne
  rw [InMemoryRestorationStore.drop, OrderedDict.ext hentries]

theorem drop_drop (store : InMemoryRestorationStore codec) (k : Str) : (store.drop k).drop k = store.drop k :=
  drop_of_none (by simp [InMemoryRestorationStore.drop])

theorem evict_drop (hsorted : ExpiringDict.Sorted store.data) (k : Str) (t : Time) :
    (store.drop k).evictExpired t = (store.evictExpired t).drop k := by
  have hentries : (ExpiringDict.evict (store.data.erase k) t).entries = ((ExpiringDict.evict store.data t).erase k).entries := by
    show _ = (ExpiringDict.evict store.data t).entries.filter _
    rw [ExpiringDict.entries_evict (hsorted.erase k), ExpiringDict.entries_evict hsorted, OrderedDict.erase,
      List.filter_filter, List.filter_filter]
    exact List.filter_congr fun e _ => Bool.and_comm _ _
  simp only [InMemoryRestorationStore.evictExpired, InMemoryRestorationStore.drop, OrderedDict.ext hentries]

/-- A read that finds the entry expired, or none, leaves the key without one. -/
theorem transitionRead_expired (hexp : ∀ p, store.data.get? k = some p → p.1 ≤ readAt) :
    store.transitionRead k evictAt readAt = (.ok none, (store.evictExpired evictAt).drop k) := by
  unfold InMemoryRestorationStore.transitionRead
  dsimp only
  cases hget : (store.evictExpired evictAt).data.get? k with
  | none =>
    dsimp only
    rw [drop_of_none hget]
  | some p =>
    obtain ⟨expiresAt, encrypted⟩ := p
    have := hexp _ (ExpiringDict.get?_of_evict hget)
    simp [not_lt.mpr this]

/-- A lookup while the callback runs answers as it would have answered before the read, if it does not find the record
    expired; the read could come after it. -/
theorem get_running {current : Option RestorationState} (hsorted : ExpiringDict.Sorted store.data)
    (hread : store.transitionRead k evictAt readAt = (.ok current, store')) (hevict : evictAt ≤ readAt) (ht : readAt ≤ t)
    (hlive : ∀ p, store'.data.get? k = some p → t < p.1) :
    (store'.get k t).2 = store' ∧ (store.get k t).1 = (store'.get k t).1 ∧
      (store.get k t).2.transitionRead k evictAt readAt = (.ok current, store') := by
  by_cases hexp : ∀ p, store.data.get? k = some p → p.1 ≤ readAt
  · have hread' := hread.symm.trans (transitionRead_expired hexp)
    have hstore : store' = (store.evictExpired evictAt).drop k := congrArg Prod.snd hread'
    have hnone : store'.data.get? k = none := by
      rw [hstore]
      simp [InMemoryRestorationStore.drop]
    have hget' : store'.get k t = (.ok none, store') := by
      unfold InMemoryRestorationStore.get
      rw [hnone]
    have hrecord : store.recordAt k t = .ok none := by
      rw [InMemoryRestorationStore.recordAt, ExpiringDict.live_eq_none.mpr fun p hp => le_trans (hexp p hp) ht]
    rw [hget', (store.get_spec k t).1, hrecord]
    refine ⟨rfl, rfl, ?_⟩
    rcases (store.get_spec k t).2 with hafter | ⟨hafter, -⟩
    · rw [hafter]
      exact hread
    · have hgone : ∀ p, (store.drop k).data.get? k = some p → p.1 ≤ readAt := by
        intro p hp
        simp [InMemoryRestorationStore.drop] at hp
      rw [hafter, transitionRead_expired hgone, evict_drop hsorted, drop_drop, ← hstore]
      exact Prod.ext (congrArg Prod.fst hread').symm rfl
  · obtain ⟨p, hp⟩ := not_forall.mp hexp
    obtain ⟨hget, hfresh⟩ := Classical.not_imp.mp hp
    have hget' : store'.data.get? k = some p := by
      have hpurges := purges_transitionRead store k hevict
      rw [hread] at hpurges
      exact hpurges.live hget (not_le.mp hfresh)
    have ht' : ¬ t ≥ p.1 := not_le.mpr (hlive p hget')
    have hsame : store.get k t = ((codec.decode k p.2).map some, store) := by
      unfold InMemoryRestorationStore.get
      simp only [hget, ht', if_false]
    have hsame' : store'.get k t = ((codec.decode k p.2).map some, store') := by
      unfold InMemoryRestorationStore.get
      simp only [hget', ht', if_false]
    rw [hsame, hsame']
    exact ⟨rfl, rfl, hread⟩

end

/-! ### The invariant -/

section
variable {codec : Codec} {ι : Type} {k : Str} {calls : ι → Call} {init : InMemoryRestorationStore codec}
  {s s' : System codec ι} {i j : ι}

/-- The store as the calls that are finished leave it, one after the other. -/
def settledStore (init : InMemoryRestorationStore codec) (s : System codec ι) : InMemoryRestorationStore codec :=
  (sequential codec ι).after init s.finished

/-- A transition between its sections: its read could be made now. -/
structure Reads (k : Str) (calls : ι → Call) (s : System codec ι) (base : InMemoryRestorationStore codec) (i : ι)
    (evictAt readAt : Time) (newState : Option RestorationState) : Prop where
  evict_le : evictAt ≤ readAt
  read_le : readAt ≤ s.now
  reads : ∃ fn current, calls i = .transition fn ∧ base.transitionRead k evictAt readAt = (.ok current, s.store) ∧
    fn current = .ok newState

structure Inv (k : Str) (calls : ι → Call) (init : InMemoryRestorationStore codec) (s : System codec ι) : Prop where
  legal : (sequential codec ι).Legal init s.finished
  ordered : Ordered s.now (settledStore init s)
  settled : (∀ i, (s.phase i).isRunning = false) → s.store = settledStore init s
  running : ∀ i evictAt readAt newState, s.phase i = .running evictAt readAt newState →
    Reads k calls s (settledStore init s) i evictAt readAt newState
  /-- Mutual exclusion. -/
  holder : ∀ i, (s.phase i).locked = true → s.holder = some i
  nodup : (s.finished.map (·.call)).Nodup
  answers : ∀ i answer, (s.phase i).answer? = some answer ↔ ∃ e ∈ s.finished, e.call = i ∧ e.answer = answer

theorem Phase.isRunning_iff {phase : Phase} :
    phase.isRunning = true ↔ ∃ evictAt readAt newState, phase = .running evictAt readAt newState := by
  cases phase <;> simp [Phase.isRunning]

theorem Phase.locked_of_isRunning {phase : Phase} (h : phase.isRunning = true) : phase.locked = true := by
  cases phase <;> simp_all [Phase.isRunning, Phase.locked]

/-- The others do not have the stripe lock. -/
theorem Inv.others (h : Inv k calls init s) (hi : (s.phase i).locked = true) : ∀ j, j ≠ i → (s.phase j).locked = false := by
  intro j hj
  by_contra hlocked
  exact hj (Option.some.inj ((h.holder j (by simpa using hlocked)).symm.trans (h.holder i hi)))

/-- With the stripe lock, and not between the sections: nobody is. -/
theorem Inv.alone (h : Inv k calls init s) (hlocked : (s.phase i).locked = true) (hi : (s.phase i).isRunning = false) :
    ∀ j, (s.phase j).isRunning = false := by
  intro j
  by_cases hj : j = i
  · rw [hj]
    exact hi
  · by_contra hrunning
    have := h.others hlocked j hj
    rw [Phase.locked_of_isRunning (by simpa using hrunning)] at this
    cases this

variable [DecidableEq ι]

/-- The last section of a call keeps the invariant if it does to the settled store what the call does as a whole, and
    gives the answer that the call gives there. -/
theorem Inv.finish (h : Inv k calls init s) {e : Event ι} {store : InMemoryRestorationStore codec} {now : Time}
    {phase : Phase} (hpending : (s.phase e.call).answer? = none)
    (hright : (e.op.run (settledStore init s)).1 = e.answer)
    (hordered : Ordered now (e.op.run (settledStore init s)).2) (hanswer : phase.answer? = some e.answer)
    (hlocked : phase.locked = true → (s.phase e.call).locked = true)
    (hsettled : (∀ j, j ≠ e.call → (s.phase j).isRunning = false) → store = (e.op.run (settledStore init s)).2)
    (hrunning : ∀ j evictAt readAt newState, j ≠ e.call → s.phase j = .running evictAt readAt newState →
      Reads k calls (s.finish e store now phase) (e.op.run (settledStore init s)).2 j evictAt readAt newState) :
    Inv k calls init (s.finish e store now phase) := by
  have hafter : settledStore init (s.finish e store now phase) = (e.op.run (settledStore init s)).2 := Object.after_snoc
  have hself : (s.finish e store now phase).phase e.call = phase := Function.update_self _ _ _
  have hother : ∀ j, j ≠ e.call → (s.finish e store now phase).phase j = s.phase j :=
    fun j hj => Function.update_of_ne hj _ _
  have hnew : ∀ e' ∈ s.finished, e'.call ≠ e.call := by
    intro e' he' hcall
    have hsome := (h.answers e.call e'.answer).mpr ⟨e', he', hcall, rfl⟩
    rw [hpending] at hsome
    cases hsome
  refine ⟨Object.legal_snoc.mpr ⟨h.legal, hright⟩, ?_, ?_, ?_, ?_, ?_, ?_⟩
  · rw [hafter]
    exact hordered
  · intro hidle
    rw [hafter]
    exact hsettled fun j hj => by rw [← hother j hj]; exact hidle j
  · intro j evictAt readAt newState hj
    rw [hafter]
    by_cases hcall : j = e.call
    · subst hcall
      rw [hself] at hj
      subst hj
      cases hanswer
    · rw [hother j hcall] at hj
      exact hrunning j evictAt readAt newState hcall hj
  · intro j hj
    by_cases hcall : j = e.call
    · subst hcall
      rw [hself] at hj
      exact h.holder _ (hlocked hj)
    · rw [hother j hcall] at hj
      exact h.holder j hj
  · show ((s.finished ++ [e]).map (·.call)).Nodup
    rw [List.map_append, List.map_singleton, List.nodup_append]
    refine ⟨h.nodup, List.nodup_cons.mpr ⟨List.not_mem_nil, List.nodup_nil⟩, fun a ha b hb => ?_⟩
    obtain ⟨e', he', rfl⟩ := List.mem_map.mp ha
    rw [List.mem_singleton.mp hb]
    exact hnew e' he'
  · intro j answer
    show _ ↔ ∃ e' ∈ s.finished ++ [e], _
    by_cases hcall : j = e.call
    · subst hcall
      rw [hself, hanswer]
      constructor
      · rintro ⟨⟩
        exact ⟨e, List.mem_append_right _ (List.mem_singleton_self e), rfl, rfl⟩
      · rintro ⟨e', he', hcall, rfl⟩
        rcases List.mem_append.mp he' with he' | he'
        · exact absurd hcall (hnew e' he')
        · rw [List.mem_singleton.mp he']
    · rw [hother j hcall, h.answers j answer]
      constructor
      · rintro ⟨e', he', heq⟩
        exact ⟨e', List.mem_append_left _ he', heq⟩
      · rintro ⟨e', he', hj, heq⟩
        rcases List.mem_append.mp he' with he' | he'
        · exact ⟨e', he', hj, heq⟩
        · rw [List.mem_singleton.mp he'] at hj
          exact absurd hj.symm hcall

/-- A whole transition, when its sections act as one. -/
theorem transition_run {base store store' : InMemoryRestorationStore codec} {fn : TransitionFn}
    {evictAt readAt writeAt : Time} {current newState : Option RestorationState} {answer : Answer}
    (hread : base.transitionRead k evictAt readAt = (.ok current, store)) (hfn : fn current = .ok newState)
    (hwrite : store.transitionWrite k newState writeAt = (answer, store')) :
    (Op.transition k fn evictAt readAt writeAt).run base = (answer, store') := by
  show base.transition k fn evictAt readAt writeAt = _
  rw [InMemoryRestorationStore.transition, hread]
  dsimp only
  rw [hfn]
  exact hwrite

theorem transition_raise {store store' : InMemoryRestorationStore codec} {fn : TransitionFn} {evictAt readAt : Time}
    {current : Answer} {e : PIIProxyError}
    (hread : store.transitionRead k evictAt readAt = (current, store')) (hfn : current.bind fn = .error e) :
    (Op.transition k fn evictAt readAt readAt).run store = (.error e, store') := by
  show store.transition k fn evictAt readAt readAt = _
  rw [InMemoryRestorationStore.transition, hread]
  cases current with
  | error e' =>
    obtain rfl := Except.error.inj hfn
    rfl
  | ok current =>
    dsimp only
    have hfn' : fn current = .error e := hfn
    rw [hfn']

/-- A step in which no call ends, of a call that alone has the stripe lock before or after it. -/
theorem Inv.move (h : Inv k calls init s) {phase : Phase} (hfinished : s'.finished = s.finished)
    (hphase : s'.phase = Function.update s.phase i phase) (hanswer : phase.answer? = (s.phase i).answer?)
    (hnow : s.now ≤ s'.now) (hothers : ∀ j, j ≠ i → (s.phase j).locked = false)
    (hstore : phase.isRunning = false → s'.store = settledStore init s)
    (hrunning : ∀ evictAt readAt newState, phase = .running evictAt readAt newState →
      Reads k calls s' (settledStore init s) i evictAt readAt newState)
    (hholder : phase.locked = true → s'.holder = some i) : Inv k calls init s' := by
  have hsame : settledStore init s' = settledStore init s := by rw [settledStore, hfinished]; rfl
  have hself : s'.phase i = phase := by rw [hphase, Function.update_self]
  have hother : ∀ j, j ≠ i → s'.phase j = s.phase j := fun j hj => by rw [hphase, Function.update_of_ne hj]
  refine ⟨?_, ?_, ?_, ?_, ?_, ?_, ?_⟩
  · rw [hfinished]
    exact h.legal
  · rw [hsame]
    exact h.ordered.later hnow
  · intro hidle
    rw [hsame]
    exact hstore (by rw [← hself]; exact hidle i)
  · intro j evictAt readAt newState hj
    rw [hsame]
    by_cases hji : j = i
    · subst hji
      exact hrunning evictAt readAt newState (hself.symm.trans hj)
    · have hlocked := hothers j hji
      rw [← hother j hji, hj] at hlocked
      cases hlocked
  · intro j hj
    by_cases hji : j = i
    · subst hji
      exact hholder (by rw [← hself]; exact hj)
    · rw [hother j hji, hothers j hji] at hj
      cases hj
  · rw [hfinished]
    exact h.nodup
  · intro j answer
    rw [hfinished, ← h.answers j answer]
    by_cases hji : j = i
    · subst hji
      rw [hself, hanswer]
    · rw [hother j hji]

/-- A call that is one section, while no transition is between its own. -/
theorem Inv.finish_alone (h : Inv k calls init s) {e : Event ι} {store : InMemoryRestorationStore codec} {now : Time}
    {phase : Phase} (halone : ∀ j, (s.phase j).isRunning = false) (hpending : (s.phase e.call).answer? = none)
    (hrun : e.op.run s.store = (e.answer, store)) (hordered : Ordered now store)
    (hanswer : phase.answer? = some e.answer) (hlocked : phase.locked = true → (s.phase e.call).locked = true) :
    Inv k calls init (s.finish e store now phase) := by
  rw [h.settled halone] at hrun
  refine h.finish hpending (congrArg Prod.fst hrun) ?_ hanswer hlocked (fun _ => (congrArg Prod.snd hrun).symm) ?_
  · rw [hrun]
    exact hordered
  · intro j evictAt readAt newState _ hj
    have := halone j
    rw [hj] at this
    cases this

theorem Inv.step (h : Inv k calls init s) (hstep : Step k calls s i s') (hundisturbed : Undisturbed k calls s i s') :
    Inv k calls init s' := by
  cases hstep with
  | @get now hcall hphase hnow =>
    by_cases halone : ∀ j, (s.phase j).isRunning = false
    · have hordered := (stable_ordered codec).get (h.ordered.later hnow) k now
      rw [← h.settled halone] at hordered
      exact h.finish_alone halone (by rw [hphase]; rfl) rfl hordered rfl nofun
    · obtain ⟨j, hj⟩ := not_forall.mp halone
      have hj' : (s.phase j).isRunning = true := by simpa using hj
      have hlive := hundisturbed ⟨j, hj'⟩
      rw [hcall] at hlive
      have hget : ∀ j evictAt readAt newState, s.phase j = .running evictAt readAt newState →
          ∃ fn current, calls j = .transition fn ∧ fn current = .ok newState ∧ (s.store.get k now).2 = s.store ∧
            ((settledStore init s).get k now).1 = (s.store.get k now).1 ∧
            ((settledStore init s).get k now).2.transitionRead k evictAt readAt = (.ok current, s.store) := by
        intro j evictAt readAt newState hrunning
        obtain ⟨hevict, hread, fn, current, hfn, hreads, hnew⟩ := h.running j evictAt readAt newState hrunning
        exact ⟨fn, current, hfn, hnew,
          get_running h.ordered.sorted hreads hevict (le_trans hread hnow) fun p hp => hlive p hp⟩
      obtain ⟨evictAt, readAt, newState, hrunning⟩ := Phase.isRunning_iff.mp hj'
      obtain ⟨-, -, -, -, -, hanswer, -⟩ := hget j evictAt readAt newState hrunning
      refine h.finish (by rw [hphase]; rfl) hanswer ((stable_ordered codec).get (h.ordered.later hnow) k now) rfl nofun ?_ ?_
      · intro hothers
        rw [hothers j fun hji => by rw [hji, hphase] at hrunning; cases hrunning] at hj'
        cases hj'
      · intro j evictAt readAt newState _ hrunning
        obtain ⟨fn, current, hfn, hnew, hstore, -, hreads⟩ := hget j evictAt readAt newState hrunning
        obtain ⟨hevict, hread, -⟩ := h.running j evictAt readAt newState hrunning
        refine ⟨hevict, le_trans hread hnow, fn, current, hfn, ?_, hnew⟩
        show _ = (_, (s.store.get k now).2)
        rw [hstore]
        exact hreads
  | @save state evictAt writeAt answer store hcall hphase hevict hwrite hrun =>
    have halone : ∀ j, (s.phase j).isRunning = false := by
      intro j
      by_contra hj
      have hdisturbs := hundisturbed ⟨j, by simpa using hj⟩
      rw [hcall] at hdisturbs
      exact hdisturbs
    have hordered := (stable_ordered codec).save h.ordered (le_trans hevict hwrite) k state evictAt
    rw [← h.settled halone] at hordered
    refine h.finish_alone halone (by rw [hphase]; rfl) hrun ?_ rfl nofun
    have hstore : (s.store.save k state evictAt writeAt).2 = store := congrArg Prod.snd hrun
    rw [← hstore]
    exact hordered
  | @delete hcall hphase =>
    have halone : ∀ j, (s.phase j).isRunning = false := by
      intro j
      by_contra hj
      have hdisturbs := hundisturbed ⟨j, by simpa using hj⟩
      rw [hcall] at hdisturbs
      exact hdisturbs
    have hordered := h.ordered.drop k
    rw [← h.settled halone] at hordered
    exact h.finish_alone halone (by rw [hphase]; rfl) rfl hordered rfl nofun
  | @acquire fn hcall hphase hfree =>
    have hnobody : ∀ j, (s.phase j).locked = false := by
      intro j
      by_contra hj
      have := h.holder j (by simpa using hj)
      rw [hfree] at this
      cases this
    have hstore := h.settled fun j => by
      by_contra hj
      have := hnobody j
      rw [Phase.locked_of_isRunning (by simpa using hj)] at this
      cases this
    exact h.move rfl rfl (by rw [hphase]; rfl) (le_refl _) (fun j _ => hnobody j) (fun _ => hstore) nofun fun _ => rfl
  | @read fn evictAt readAt current newState store hcall hphase hevict hread hfound hfn =>
    have hlocked : (s.phase i).locked = true := by rw [hphase]; rfl
    have halone := h.alone hlocked (by rw [hphase]; rfl)
    rw [h.settled halone] at hfound
    refine h.move rfl rfl (by rw [hphase]; rfl) (le_trans hevict hread) (h.others hlocked) nofun ?_
      fun _ => h.holder i hlocked
    rintro _ _ _ ⟨⟩
    exact ⟨hread, le_refl _, fn, current, hcall, hfound, hfn⟩
  | @raise fn evictAt readAt current store e hcall hphase hevict hread hfound hfn =>
    have halone := h.alone (by rw [hphase]; rfl) (by rw [hphase]; rfl)
    have hordered := (stable_ordered codec).transitionRead (h.ordered.later (le_trans hevict hread)) k evictAt readAt
    rw [← h.settled halone, hfound] at hordered
    exact h.finish_alone halone (by rw [hphase]; rfl) (transition_raise hfound hfn) hordered rfl
      fun _ => by rw [hphase]; rfl
  | @write fn evictAt readAt writeAt newState answer store hcall hphase hnow hwrite =>
    obtain ⟨-, -, fn', current, hfn', hreads, hnew⟩ := h.running i evictAt readAt newState hphase
    obtain rfl : fn = fn' := by
      rw [hcall] at hfn'
      cases hfn'
      rfl
    have hrun := transition_run hreads hnew hwrite
    have hordered := (stable_ordered codec).transitionRead h.ordered k evictAt readAt
    rw [hreads] at hordered
    have hafter := (stable_ordered codec).transitionWrite hordered hnow k newState
    rw [hwrite] at hafter
    refine h.finish (by rw [hphase]; rfl) (congrArg Prod.fst hrun) ?_ rfl (fun _ => by rw [hphase]; rfl)
      (fun _ => (congrArg Prod.snd hrun).symm) ?_
    · rw [hrun]
      exact hafter
    · intro j evictAt' readAt' newState' hne hj
      have := h.others (by rw [hphase]; rfl) j hne
      rw [hj] at this
      cases this
  | @release answer hphase =>
    have hlocked : (s.phase i).locked = true := by rw [hphase]; rfl
    have hstore := h.settled (h.alone hlocked (by rw [hphase]; rfl))
    exact h.move rfl rfl (by rw [hphase]; rfl) (le_refl _) (h.others hlocked) (fun _ => hstore) nofun nofun

theorem Inv.steps (h : Inv k calls init s)
    (hsteps : Relation.ReflTransGen (fun s s' => ∃ i, Step k calls s i s' ∧ Undisturbed k calls s i s') s s') :
    Inv k calls init s' := by
  induction hsteps with
  | refl => exact h
  | tail _ hstep ih =>
    obtain ⟨i, hstep, hundisturbed⟩ := hstep
    exact ih.step hstep hundisturbed

/-- In a run in which nothing comes between the sections of a transition, the calls are atomic: the events that have
    finished, each with the answer of its call, are legal one after the other and leave the key as it is. The store at the
    start is any that earlier calls have left. -/
theorem atomic_of_undisturbed (codec : Codec) (ttlSeconds maxEntries : Int) (start now : Time) (earlier : List Op)
    (clock : (start :: earlier.flatMap Op.readings).Pairwise (· ≤ ·))
    (later : ∀ r ∈ start :: earlier.flatMap Op.readings, r ≤ now) (k : Str) (calls : ι → Call) (s : System codec ι)
    (run : Relation.ReflTransGen (fun s s' => ∃ i, Step k calls s i s' ∧ Undisturbed k calls s i s')
      (System.start ι (runAll (new codec ttlSeconds maxEntries) earlier) now) s) :
    Atomic k (runAll (new codec ttlSeconds maxEntries) earlier) s ∧ (s.finished.map (·.call)).Nodup ∧
      ∀ i answer, s.phase i = .done answer → ∃ e ∈ s.finished, e.call = i ∧ e.answer = answer := by
  obtain ⟨t, ht, hrefines⟩ := (refines_new codec ttlSeconds maxEntries start).run earlier clock
  have hordered : Ordered now (runAll (new codec ttlSeconds maxEntries) earlier) :=
    (⟨hrefines.sorted, hrefines.recent⟩ : Ordered t _).later (later t ht)
  have hstart : Inv k calls (runAll (new codec ttlSeconds maxEntries) earlier)
      (System.start ι (runAll (new codec ttlSeconds maxEntries) earlier) now) :=
    ⟨trivial, hordered, fun _ => rfl, nofun, nofun, List.nodup_nil,
      fun i answer => ⟨nofun, fun ⟨e, he, _⟩ => absurd he List.not_mem_nil⟩⟩
  have hinv := hstart.steps run
  refine ⟨⟨s.finished, List.Perm.refl _, hinv.legal, fun hidle => ?_⟩, hinv.nodup, fun i answer hdone => ?_⟩
  · rw [hinv.settled hidle]
    rfl
  · exact (hinv.answers i answer).mp (by rw [hdone]; rfl)

end

/-! ### A save between the sections -/

def draft : RestorationState :=
  ⟨"k".toList, "h".toList, "draft".toList, "*".toList, [], 0, [], .masked, ⟨0⟩, none, []⟩

def saved : RestorationState := { draft with originalText := "saved".toList }

/-- Keeps the record that it finds. -/
def keepOrDraft : TransitionFn := fun current => .ok (some (current.getD draft))

/-- A transition and a save. -/
def racing (second : Bool) : Call := if second then .save saved else .transition keepOrDraft

def racingStart : System Codec.plain Bool := System.start Bool (runAll (new Codec.plain 60 10) []) 0

theorem racing_inTurn : ∃ s, Relation.ReflTransGen
    (fun s s' => ∃ i, Step "k".toList racing s i s' ∧ Undisturbed "k".toList racing s i s') racingStart s ∧
      s.phase false = .done (.ok (some draft)) ∧ s.phase true = .done (.ok none) := by
  have hidle : ∀ {s s' : System Codec.plain Bool} {i : Bool}, (∀ j, (s.phase j).isRunning = false) →
      Undisturbed "k".toList racing s i s' := by
    intro s s' i hidle ⟨j, hj⟩
    rw [hidle j] at hj
    cases hj
  have hrun : Relation.ReflTransGen
      (fun s s' => ∃ i, Step "k".toList racing s i s' ∧ Undisturbed "k".toList racing s i s') racingStart _ :=
    ((((Relation.ReflTransGen.refl.tail ⟨false, .acquire rfl rfl rfl, hidle (by decide)⟩).tail
      ⟨false, .read rfl rfl (le_refl 0) (le_refl 0) rfl rfl, hidle (by decide)⟩).tail
      ⟨false, .write rfl rfl (le_refl 0) rfl, fun _ => trivial⟩).tail
      ⟨false, .release rfl, hidle (by decide)⟩).tail
      ⟨true, .save rfl rfl (le_refl 0) (le_refl 0) rfl, hidle (by decide)⟩
  refine ⟨_, hrun, rfl, ?_⟩
  show Phase.done _ = Phase.done _
  refine congrArg Phase.done ?_
  decide +kernel

theorem atomic_of_undisturbed_inTurn : ∃ s : System Codec.plain Bool,
    s.phase false = .done (.ok (some draft)) ∧ s.phase true = .done (.ok none) ∧
      Atomic "k".toList (runAll (new Codec.plain 60 10) []) s := by
  obtain ⟨s, hrun, hfirst, hsecond⟩ := racing_inTurn
  have clock : ((0 : Time) :: ([] : List Op).flatMap Op.readings).Pairwise (· ≤ ·) := List.pairwise_singleton _ _
  have later : ∀ r ∈ (0 : Time) :: ([] : List Op).flatMap Op.readings, r ≤ 0 := by decide
  exact ⟨s, hfirst, hsecond,
    (atomic_of_undisturbed Codec.plain 60 10 0 0 [] clock later "k".toList racing s hrun).1⟩

/-- The save comes while the callback runs: it is overwritten, though the transition has not seen it. -/
theorem save_overwritten : ∃ s, Relation.ReflTransGen (fun s s' => ∃ i, Step "k".toList racing s i s') racingStart s ∧
    s.phase false = .done (.ok (some draft)) ∧ s.phase true = .done (.ok none) ∧
      ¬ Atomic "k".toList (runAll (new Codec.plain 60 10) []) s := by
  have hrun : Relation.ReflTransGen (fun s s' => ∃ i, Step "k".toList racing s i s') racingStart _ :=
    ((((Relation.ReflTransGen.refl.tail ⟨false, .acquire rfl rfl rfl⟩).tail
      ⟨false, .read rfl rfl (le_refl 0) (le_refl 0) rfl rfl⟩).tail
      ⟨true, .save rfl rfl (by decide : (0 : Time) ≤ 1) (le_refl 1) rfl⟩).tail
      ⟨false, .write rfl rfl (by decide : (1 : Time) ≤ 2) rfl⟩).tail
      ⟨false, .release rfl⟩
  refine ⟨_, hrun, ?_, ?_, ?_⟩
  · show Phase.done _ = Phase.done _
    refine congrArg Phase.done ?_
    decide +kernel
  · show Phase.done _ = Phase.done _
    refine congrArg Phase.done ?_
    decide +kernel
  · rintro ⟨order, hperm, hlegal, hcontent⟩
    rcases List.perm_pair.mp hperm with rfl | rfl
    · -- After the save the transition would have kept the record that was saved.
      have hfound : ((Op.transition "k".toList keepOrDraft 0 0 2).run
          ((Op.save "k".toList saved 1 1).run (runAll (new Codec.plain 60 10) [])).2).1 = .ok (some saved) := by
        decide +kernel
      have hanswer := hfound.symm.trans hlegal.2.1
      refine absurd hanswer ?_
      decide +kernel
    · -- Before the save it would have left the key to the save, whose record expires at another time.
      have hexpiry := congrArg (Option.map Prod.fst) (hcontent (by decide))
      refine absurd hexpiry ?_
      decide +kernel

end PiiProxy.InMemoryRestorationStore
