import PiiProxy.Lib.Simulation
import PiiProxy.Theorems.Atomic
import PiiProxy.Theorems.SameId

/-! # The in-memory store makes the calls atomic

With any number of keys, whatever expires and however full the store is: the calls over the in-memory store are a run of
the machine of atomic steps. A call takes effect with its locked write, or with the error of its callback. -/

namespace PiiProxy.ProcessService
open InMemoryRestorationStore Relation

section
variable {codec : Codec} {ι : Type} {calls : Calls ι} {s s' : System codec ι} {a a' : Atomic ι} {i : ι} {k : Str}
  {phase : Phase} {e : PIIProxyError}

/-! ### The stored records -/

/-- What the store has is what the machine has. It may have less. -/
structure Backed (store : InMemoryRestorationStore codec) (records : Str → Option RestorationState) : Prop where
  stored : ∀ k entry, store.data.get? k = some entry → ∃ record, records k = some record ∧ entry.2 = codec.encode record
  payloadId : ∀ k record, records k = some record → record.payloadId = k

variable {store store' : InMemoryRestorationStore codec} {records : Str → Option RestorationState} {t : Time}

theorem Backed.purges (h : Backed store records) (hpurges : Purges t store store') : Backed store' records where
  stored k entry hget := h.stored k entry (hpurges.back hget)
  payloadId := h.payloadId

/-- A lookup in a backed store finds the record, or nothing and leaves nothing. -/
theorem Backed.get (h : Backed store records) {found : Except PIIProxyError (Option RestorationState)}
    (hget : store.get k t = (found, store')) :
    (∃ record, found = .ok (some record) ∧ records k = some record) ∨
      found = .ok none ∧ store'.data.get? k = none := by
  unfold InMemoryRestorationStore.get at hget
  cases hentry : store.data.get? k with
  | none =>
    rw [hentry] at hget
    cases hget
    exact Or.inr ⟨rfl, hentry⟩
  | some entry =>
    obtain ⟨record, hrecord, htoken⟩ := h.stored k entry hentry
    rw [hentry] at hget
    dsimp only at hget
    split at hget
    · cases hget
      exact Or.inr ⟨rfl, by rw [drop, OrderedDict.get?_erase, if_pos rfl]⟩
    · cases hget
      refine Or.inl ⟨record, ?_, hrecord⟩
      rw [htoken, codec.decode_encode_self (h.payloadId k record hrecord)]
      rfl

theorem Backed.transitionRead (h : Backed store records) {evictAt readAt : Time}
    {found : Except PIIProxyError (Option RestorationState)}
    (hread : store.transitionRead k evictAt readAt = (found, store')) :
    (∃ record, found = .ok (some record) ∧ records k = some record) ∨
      found = .ok none ∧ store'.data.get? k = none := by
  rw [transitionRead_eq] at hread
  exact (h.purges (purges_evict store evictAt)).get hread

/-- A key gets a record, or loses it. -/
theorem Backed.update (h : Backed store records) {value : Option RestorationState}
    (hother : ∀ k', k' ≠ k → store'.data.get? k' = store.data.get? k')
    (hself : ∀ entry, store'.data.get? k = some entry → ∃ record, value = some record ∧ entry.2 = codec.encode record)
    (hid : ∀ record, value = some record → record.payloadId = k) : Backed store' (Function.update records k value) := by
  refine ⟨fun k' entry hentry => ?_, fun k' record hrecord => ?_⟩
  · by_cases hk : k' = k
    · subst hk
      rw [Function.update_self]
      exact hself entry hentry
    · rw [hother k' hk] at hentry
      rw [Function.update_of_ne hk]
      exact h.stored k' entry hentry
  · by_cases hk : k' = k
    · subst hk
      rw [Function.update_self] at hrecord
      exact hid record hrecord
    · rw [Function.update_of_ne hk] at hrecord
      exact h.payloadId k' record hrecord

theorem Backed.forget (h : Backed store records) (hnone : store.data.get? k = none) :
    Backed store (Function.update records k none) := by
  refine h.update (fun _ _ => rfl) (fun entry hentry => ?_) fun record hrecord => by cases hrecord
  rw [hnone] at hentry
  cases hentry

theorem Backed.put (h : Backed store records) {state : RestorationState} (hid : state.payloadId = k) (t : Time) :
    Backed (store.put k state t) (Function.update records k (some state)) := by
  refine h.update (fun k' hk => get?_put hk) (fun entry hentry => ?_) fun record hrecord => ?_
  · rw [get?_put_self] at hentry
    obtain rfl := Option.some.inj hentry
    exact ⟨state, rfl, rfl⟩
  · obtain rfl := Option.some.inj hrecord
    exact hid

/-! ### The simulation -/

/-- What a call has in its hands. After its locked read nobody else changes the record of its key. -/
def PhaseLinked (calls : Calls ι) (a : Atomic ι) (i : ι) : Phase → Prop
  | .idle | .releasing _ | .done _ => True
  | .preparing => calls.callers.Named i
  | .waiting prepared | .holding prepared => calls.callers.Named i ∧ calls.callers.Brings i prepared
  | .deciding prepared current =>
    calls.callers.Named i ∧ calls.callers.Brings i prepared ∧ a.records (calls.key i) = current
  | .writing current state =>
    calls.callers.Named i ∧ calls.callers.Decides i current (.ok state) ∧ a.records (calls.key i) = current

structure Linked (calls : Calls ι) (s : System codec ι) (a : Atomic ι) : Prop where
  exclusive : Exclusive calls s
  answers : ∀ i, a.answers i = (s.phase i).answer?
  backed : Backed s.store a.records
  phase : ∀ i, PhaseLinked calls a i (s.phase i)

/-- A call outside its transition does not know the record. -/
theorem PhaseLinked.of_answer (h : PhaseLinked calls a i phase)
    (hrecord : phase.locked = true → a'.records (calls.key i) = a.records (calls.key i)) : PhaseLinked calls a' i phase := by
  cases phase with
  | idle | preparing | waiting | holding | releasing | done => exact h
  | deciding prepared current =>
    obtain ⟨hnamed, hbrings, hcurrent⟩ := h
    exact ⟨hnamed, hbrings, (hrecord rfl).trans hcurrent⟩
  | writing current state =>
    obtain ⟨hnamed, hdecides, hcurrent⟩ := h
    exact ⟨hnamed, hdecides, (hrecord rfl).trans hcurrent⟩

variable [DecidableEq ι]

/-- A call moves, and with it the record of its key and its answer at most. -/
theorem Linked.move (h : Linked calls s a) (hexclusive : Exclusive calls s')
    (hphase : s'.phase = Function.update s.phase i phase) (hanswer : a'.answers = Function.update a.answers i phase.answer?)
    (hbacked : Backed s'.store a'.records) (hown : PhaseLinked calls a' i phase)
    (hrecords : ∀ k, a'.records k = a.records k ∨ k = calls.key i ∧ (s.phase i).locked = true) : Linked calls s' a' := by
  refine ⟨hexclusive, fun j => ?_, hbacked, fun j => ?_⟩
  · rw [hanswer, hphase]
    by_cases hji : j = i
    · subst hji
      rw [Function.update_self, Function.update_self]
    · rw [Function.update_of_ne hji, Function.update_of_ne hji]
      exact h.answers j
  · rw [hphase]
    by_cases hji : j = i
    · subst hji
      rw [Function.update_self]
      exact hown
    · rw [Function.update_of_ne hji]
      refine (h.phase j).of_answer fun hlocked => ?_
      rcases hrecords (calls.key j) with hsame | ⟨hkey, hi⟩
      · exact hsame
      · exact absurd (h.exclusive.alone hkey hlocked hi) hji

/-- A call moves, and the machine does nothing. -/
theorem Linked.stutter (h : Linked calls s a) (hexclusive : Exclusive calls s')
    (hphase : s'.phase = Function.update s.phase i phase) (hanswer : phase.answer? = (s.phase i).answer?)
    (hbacked : Backed s'.store a.records) (hown : PhaseLinked calls a i phase) :
    ∃ a', ReflTransGen (Atomic.Step calls.callers) a a' ∧ Linked calls s' a' := by
  refine ⟨a, .refl, h.move hexclusive hphase ?_ hbacked hown fun _ => Or.inl rfl⟩
  rw [hanswer, ← h.answers i, Function.update_eq_self]

/-- A call ends with an error of its own. -/
theorem Linked.fail (h : Linked calls s a) (hexclusive : Exclusive calls s')
    (hphase : s'.phase = Function.update s.phase i phase) (hpending : (s.phase i).answer? = none)
    (hanswer : phase.answer? = some (.error e)) (hbacked : Backed s'.store a.records) (hown : PhaseLinked calls a i phase)
    (hfails : calls.callers.Fails i e) :
    ∃ a', ReflTransGen (Atomic.Step calls.callers) a a' ∧ Linked calls s' a' := by
  refine ⟨_, .single (.fail ((h.answers i).trans hpending) hfails), h.move hexclusive hphase ?_ hbacked ?_ fun _ => Or.inl rfl⟩
  · rw [hanswer]
    rfl
  · exact hown.of_answer fun _ => rfl

theorem linked_step : Simulates (fun s s' : System codec ι => ∃ readings, Step calls s readings s')
    (Atomic.Step calls.callers) (Linked calls) := by
  rintro s s' a h ⟨readings, hstep⟩
  have hexclusive := h.exclusive.step hstep
  have hpending : ∀ {i : ι} {phase : Phase}, s.phase i = phase → phase.answer? = none → (s.phase i).answer? = none := by
    intro i phase hi hnone
    rw [hi]
    exact hnone
  have hlinked : ∀ {i : ι} {phase : Phase}, s.phase i = phase → PhaseLinked calls a i phase := by
    intro i phase hi
    have hphase := h.phase i
    rwa [hi] at hphase
  cases hstep with
  | @reject i hi hempty =>
    exact h.fail hexclusive rfl (hpending hi rfl) rfl h.backed trivial (.missing (not_not.mpr hempty))
  | @lookup i now found store hi hnamed hget =>
    have hpurges := purges_get s.store (calls.key i) now
    rw [hget] at hpurges
    have hbacked : Backed store a.records := h.backed.purges hpurges
    refine h.stutter hexclusive rfl ?_ hbacked ?_
    · rw [hi]
      split <;> rfl
    · split
      · exact ⟨hnamed, fun record hrecord => by cases hrecord⟩
      · exact hnamed
  | @lookupFails i now e store hi hnamed hget =>
    rcases h.backed.get hget with ⟨record, hfound, -⟩ | ⟨hfound, -⟩
    · cases hfound
    · cases hfound
  | @prepare i state hi hprepare =>
    refine h.stutter hexclusive rfl (by rw [hi]; rfl) h.backed ⟨hlinked hi, fun record hrecord => ?_⟩
    obtain rfl := Option.some.inj hrecord
    exact ⟨0, hprepare⟩
  | @prepareFails i e hi hprepare =>
    exact h.fail hexclusive rfl (hpending hi rfl) rfl h.backed trivial (.prepare (n := 0) hprepare)
  | @acquire i prepared hi hfree =>
    have hlinked : PhaseLinked calls a i (.waiting prepared) := hlinked hi
    exact h.stutter hexclusive rfl (by rw [hi]; rfl) h.backed hlinked
  | @read i prepared evictAt readAt current store hi hle hread =>
    obtain ⟨hnamed, hbrings⟩ := hlinked hi
    have hpurges := purges_transitionRead s.store (calls.key i) hle
    rw [hread] at hpurges
    have hbacked : Backed store a.records := h.backed.purges hpurges
    rcases h.backed.transitionRead hread with ⟨record, hfound, hrecord⟩ | ⟨hfound, hnone⟩
    · obtain rfl := Except.ok.inj hfound
      exact h.stutter hexclusive rfl (by rw [hi]; rfl) hbacked ⟨hnamed, hbrings, hrecord⟩
    · -- The record is gone: the machine forgets it now.
      obtain rfl := Except.ok.inj hfound
      refine ⟨_, .single (.forget (calls.key i)), h.move hexclusive rfl ?_ (hbacked.forget hnone)
        ⟨hnamed, hbrings, Function.update_self _ _ _⟩ fun k => ?_⟩
      · have hnone := (h.answers i).trans (hpending hi rfl)
        exact (Function.update_eq_self_iff.mpr hnone.symm).symm
      · by_cases hk : k = calls.key i
        · exact Or.inr ⟨hk, by rw [hi]; rfl⟩
        · exact Or.inl (Function.update_of_ne hk _ _)
  | @readFails i prepared evictAt readAt e store hi hle hread =>
    rcases h.backed.transitionRead hread with ⟨record, hfound, -⟩ | ⟨hfound, -⟩
    · cases hfound
    · cases hfound
  | @decide i prepared current state hi hdecide =>
    obtain ⟨hnamed, hbrings, hcurrent⟩ := hlinked hi
    exact h.stutter hexclusive rfl (by rw [hi]; rfl) h.backed ⟨hnamed, ⟨0, prepared, hbrings, hdecide⟩, hcurrent⟩
  | @refuse i prepared current e hi hdecide =>
    obtain ⟨hnamed, hbrings, hcurrent⟩ := hlinked hi
    refine ⟨_, .single (.refuse (i := i) (e := e) ((h.answers i).trans (hpending hi rfl)) hnamed ?_),
      h.move hexclusive rfl rfl h.backed trivial fun _ => Or.inl rfl⟩
    exact ⟨0, prepared, hbrings, (congrArg _ hcurrent).trans hdecide⟩
  | @write i current state writeAt store hi hwrite =>
    obtain ⟨hnamed, hdecides, hcurrent⟩ := hlinked hi
    rw [← hcurrent] at hdecides
    have hid : state.payloadId = calls.key i :=
      Callers.Decides.payloadId hdecides fun record => h.backed.payloadId (calls.key i) record
    refine ⟨_, .single (.commit ((h.answers i).trans (hpending hi rfl)) hnamed hdecides),
      h.move hexclusive rfl rfl ?_ trivial fun k => ?_⟩
    · unfold transitionWrite at hwrite
      dsimp only at hwrite
      split at hwrite
      · cases hwrite
      · cases hwrite
        exact h.backed.put hid writeAt
    · by_cases hk : k = calls.key i
      · exact Or.inr ⟨hk, by rw [hi]; rfl⟩
      · exact Or.inl (Function.update_of_ne hk _ _)
  | @writeFails i current state writeAt e store hi hwrite =>
    unfold transitionWrite at hwrite
    dsimp only at hwrite
    split at hwrite
    · cases hwrite
      exact h.fail hexclusive rfl (hpending hi rfl) rfl h.backed trivial (.store List.mem_cons_self)
    · cases hwrite
  | @release i answer hi =>
    exact h.stutter hexclusive rfl (by rw [hi]; rfl) h.backed trivial

omit [DecidableEq ι] in
theorem Linked.start (calls : Calls ι) (ttlSeconds maxEntries : Int) :
    Linked calls (System.start ι (new codec ttlSeconds maxEntries)) (Atomic.start ι) where
  exclusive i hi := by cases hi
  answers i := rfl
  backed :=
    { stored := fun k entry hentry => by cases hentry
      payloadId := fun k record hrecord => by cases hrecord }
  phase i := trivial

/-- Any run of the calls over the in-memory store is one of the machine: it has given the same answers, and every record
    that the store has is the machine's. So every answer goes back to a MASK answer on its key. -/
theorem memory_is_atomic (calls : Calls ι) (ttlSeconds maxEntries : Int) (s : System codec ι)
    (hsteps : ReflTransGen (fun s s' => ∃ readings, Step calls s readings s')
      (System.start ι (new codec ttlSeconds maxEntries)) s) :
    (∃ a, ReflTransGen (Atomic.Step calls.callers) (Atomic.start ι) a ∧ (∀ i, a.answers i = (s.phase i).answer?) ∧
        ∀ k entry, s.store.data.get? k = some entry →
          ∃ record, a.records k = some record ∧ codec.decode k entry.2 = .ok record) ∧
      ∀ i out, (s.phase i).answer? = some (.ok out) →
        ∃ j mask, GoesBack calls.callers (fun i => (s.phase i).answer?) i out j mask := by
  obtain ⟨a, hsteps', hlinked⟩ := linked_step.run (Linked.start calls ttlSeconds maxEntries) hsteps
  have hanswers : a.answers = fun i => (s.phase i).answer? := funext hlinked.answers
  refine ⟨⟨a, hsteps', hlinked.answers, fun k entry hentry => ?_⟩, fun i out hi => ?_⟩
  · obtain ⟨record, hrecord, htoken⟩ := hlinked.backed.stored k entry hentry
    refine ⟨record, hrecord, ?_⟩
    rw [htoken, codec.decode_encode_self (hlinked.backed.payloadId k record hrecord)]
  · rw [← hanswers]
    exact (Grounded.start calls.callers).steps hsteps' |>.goesBack ((hlinked.answers i).trans hi)

end

/-- The second call of the exchange gets back what the first one has sent. -/
theorem memory_is_atomic_exchange : ∃ s : System Codec.plain Bool,
    s.phase true = .done (.ok ⟨"a@b.ru".toList, .demask, 1, ["EMAIL".toList]⟩) ∧
      ∃ j mask, GoesBack exchange.callers (fun i => (s.phase i).answer?) true
        ⟨"a@b.ru".toList, .demask, 1, ["EMAIL".toList]⟩ j mask := by
  obtain ⟨s, hcalm, hdone⟩ := exchange_runs
  have hsteps : ReflTransGen (fun s s' => ∃ readings, Step exchange s readings s')
      (System.start Bool (new Codec.plain 60 10)) s := by
    refine ReflTransGen.mono ?_ _ _ hcalm
    rintro _ _ ⟨readings, -, hstep⟩
    exact ⟨readings, hstep⟩
  obtain ⟨-, hback⟩ := memory_is_atomic exchange 60 10 s hsteps
  exact ⟨s, hdone, hback true _ (by rw [hdone]; rfl)⟩

end PiiProxy.ProcessService
