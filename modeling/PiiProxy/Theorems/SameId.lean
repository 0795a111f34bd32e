import Mathlib.Data.List.Nodup
import PiiProxy.Lib.History
import PiiProxy.Theorems.Isolation

/-! # Concurrent calls on one id

However the steps of the calls on one key come, the answers are those of the calls one after the other: first those that
fail before their transition, then the others in the order of their transitions, by the table. One call creates the
record, and all that is stored or returned after it is about that record. -/

namespace PiiProxy.ProcessService
open InMemoryRestorationStore History

section
variable {codec : Codec} {ι : Type} {calls : Calls ι} {k : Str} {s s' : System codec ι} {i j : ι} {phase : Phase}
  {value value' prepared : Option RestorationState} {history : List (Event ι)} {e : PIIProxyError}

/-! ### One call alone -/

/-- The answer of a call that runs alone, by the table, and the record of its id afterwards. -/
def Calls.lifecycle (calls : Calls ι) (i : ι) (current : Option RestorationState) :
    Answer × Option RestorationState :=
  if (calls.request i).payload = [] ∨ (calls.request i).payloadId = [] then (.error missing, current)
  else
    match current with
    | none =>
      match calls.prepare i with
      | .error e => (.error e, none)
      | .ok record => (.ok (outcome record.maskedText .mask record), some record)
    | some record =>
      match table record.originalText record.maskedText record.state (calls.request i).payload with
      | none => (.error mismatch, some record)
      | some (operation, result, status) => (.ok (outcome result operation record), some (withStatus record status))

/-- The record of an id, as the calls on it change it one after the other. -/
def Calls.sequential (calls : Calls ι) : Object (Option RestorationState) (ι × Answer) where
  effect current e := (calls.lifecycle e.1 current).2
  right current e := (calls.lifecycle e.1 current).1 = e.2

/-- The transitions of the calls on a key, in their order. -/
def System.events (calls : Calls ι) (k : Str) (s : System codec ι) : List (Event ι) :=
  s.log.filter fun e => calls.key e.call = k

/-- The calls on a key that failed before their transition. -/
def System.failures (calls : Calls ι) (k : Str) (s : System codec ι) : List (ι × PIIProxyError) :=
  s.failed.filter fun f => calls.key f.1 = k

/-- Each call on a key that has its answer, with the answer. -/
def System.order (calls : Calls ι) (k : Str) (s : System codec ι) : List (ι × Answer) :=
  (s.failures calls k).map (fun f => (f.1, .error f.2)) ++ (s.events calls k).map fun e => (e.call, e.answer)

/-- The record of a key after the transitions on it. -/
def System.record (calls : Calls ι) (k : Str) (s : System codec ι) : Option RestorationState :=
  calls.sequential.after none ((s.events calls k).map fun e => (e.call, e.answer))

def Phase.answer? : Phase → Option Answer
  | releasing answer | done answer => some answer
  | idle | preparing | waiting _ | holding _ | deciding _ _ | writing _ _ => none

/-- What the run relies on, of the calls on a key: they may demask, and no two of their texts have the same digest. -/
structure Calls.Plain (calls : Calls ι) (k : Str) : Prop where
  enabled : ∀ i, calls.key i = k → (calls.request i).policy.demaskingEnabled = true
  hashPayload : Set.InjOn calls.digests.hashPayload {payload | ∃ i, calls.key i = k ∧ (calls.request i).payload = payload}

/-! ### The events of a key -/

/-- A transition that finds the record, and goes by the table. -/
def About (calls : Calls ι) (record : RestorationState) (e : Event ι) : Prop :=
  ∃ status, e.current = some (withStatus record status) ∧
    match table record.originalText record.maskedText status (calls.request e.call).payload with
    | none => e.result = .error mismatch
    | some (operation, result, status') =>
      e.result = .ok (withStatus record status') ∧ e.answer = .ok (outcome result operation record)

/-- The first event creates the record, and the others are about it. -/
def OneRecord (calls : Calls ι) (k : Str) (history : List (Event ι)) (value : Option RestorationState) : Prop :=
  history = [] ∧ value = none ∨
    ∃ creator record rest status, history = ⟨creator, none, .ok record⟩ :: rest ∧ calls.key creator = k ∧
      calls.prepare creator = .ok record ∧ value = some (withStatus record status) ∧ ∀ e ∈ rest, About calls record e

/-- A call on its way to the transition. If it has not prepared a record, there is one. -/
structure Ready (calls : Calls ι) (value : Option RestorationState) (i : ι) (prepared : Option RestorationState) :
    Prop where
  named : ¬ ((calls.request i).payload = [] ∨ (calls.request i).payloadId = [])
  prepares : ∀ record, prepared = some record → calls.prepare i = .ok record
  found : prepared = none → value ≠ none

theorem lifecycle_some (named : ¬ ((calls.request i).payload = [] ∨ (calls.request i).payloadId = []))
    (record : RestorationState) :
    calls.lifecycle i (some record) =
      match table record.originalText record.maskedText record.state (calls.request i).payload with
      | none => (.error mismatch, some record)
      | some (operation, result, status) => (.ok (outcome result operation record), some (withStatus record status)) := by
  rw [Calls.lifecycle, if_neg named]

theorem consumer_of_key (h : calls.key i = calls.key j) : calls.consumer i = calls.consumer j :=
  consumerId_of_stateKey calls.digests h

theorem OneRecord.payloadId_eq {record : RestorationState} (h : OneRecord calls k history (some record)) :
    record.payloadId = k := by
  rcases h with ⟨-, ⟨⟩⟩ | ⟨creator, record', rest, status, -, hkey, hprepare, hvalue, -⟩
  obtain rfl := Option.some.inj hvalue
  exact (prepareMask_spec calls.digests hprepare).payloadId_eq.trans hkey

/-- The callback of a call does what the call does alone. -/
theorem OneRecord.decide (h : OneRecord calls k history value) (plain : calls.Plain k) (hi : calls.key i = k)
    (ready : Ready calls value i prepared) :
    OneRecord calls k (history ++ [⟨i, value, calls.decide i prepared value⟩]) (calls.lifecycle i value).2 ∧
      (calls.lifecycle i value).1 = Event.answer ⟨i, value, calls.decide i prepared value⟩ ∧
      (∀ state, calls.decide i prepared value = .ok state → (calls.lifecycle i value).2 = some state) ∧
      ∀ e, calls.decide i prepared value = .error e → (calls.lifecycle i value).2 = value := by
  rcases h with ⟨rfl, rfl⟩ | ⟨creator, record, rest, status, rfl, hcreator, hprepare, rfl, habout⟩
  · -- Nobody has created the record: this call does.
    cases prepared with
    | none => exact absurd rfl (ready.found rfl)
    | some record =>
      have hprepare := ready.prepares record rfl
      have hdecide : calls.decide i (some record) none = .ok record := rfl
      have hmasked := (prepareMask_spec calls.digests hprepare).masked
      have hrun : calls.lifecycle i none = (.ok (outcome record.maskedText .mask record), some record) := by
        rw [Calls.lifecycle, if_neg ready.named, hprepare]
      have hanswer : Event.answer ⟨i, none, .ok record⟩ = .ok (outcome record.maskedText .mask record) := by
        show outcomeFromState (some record) = _
        rw [outcomeFromState, if_pos hmasked]
      rw [hdecide, hrun, hanswer]
      refine ⟨Or.inr ⟨i, record, [], .masked, rfl, hi, hprepare, ?_, by rintro _ ⟨⟩⟩, rfl, ?_, by rintro _ ⟨⟩⟩
      · rw [← hmasked, withStatus_self]
      · rintro state ⟨⟩
        rfl
  · have hrecord := prepareMask_spec calls.digests hprepare
    have hconsumer : (withStatus record status).consumerId = (calls.request i).policy.consumerId :=
      hrecord.consumerId_eq.trans (consumer_of_key (hcreator.trans hi.symm))
    have hhash : calls.digests.hashPayload (calls.request i).payload = (withStatus record status).originalHash ↔
        (calls.request i).payload = (withStatus record status).originalText := by
      rw [originalHash_withStatus, originalText_withStatus, hrecord.originalHash, hrecord.originalText]
      exact ⟨fun h => plain.hashPayload ⟨i, hi, rfl⟩ ⟨creator, hcreator, rfl⟩ h, fun h => congrArg _ h⟩
    have hdecide : calls.decide i prepared (some (withStatus record status)) = _ :=
      transition_eq_table hconsumer (plain.enabled i hi) hhash
    have hrun := lifecycle_some ready.named (withStatus record status)
    rw [originalText_withStatus, maskedText_withStatus, state_withStatus] at hdecide hrun
    cases hrow : table record.originalText record.maskedText status (calls.request i).payload with
    | none =>
      rw [hrow] at hdecide hrun
      rw [hdecide, hrun]
      refine ⟨Or.inr ⟨creator, record, rest ++ [_], status, rfl, hcreator, hprepare, rfl, ?_⟩, rfl, by rintro _ ⟨⟩, fun _ _ => rfl⟩
      intro e he
      rcases List.mem_append.mp he with he | he
      · exact habout e he
      · obtain rfl := List.mem_singleton.mp he
        refine ⟨status, rfl, ?_⟩
        rw [hrow]
    | some row =>
      obtain ⟨operation, result, status'⟩ := row
      rw [hrow] at hdecide hrun
      dsimp only at hdecide hrun
      have hout : outcomeFromState (some (withStatus (withStatus record status) status')) =
          .ok (outcome result operation (withStatus record status)) := outcomeFromState_of_table hrow
      rw [hdecide, hrun]
      refine ⟨Or.inr ⟨creator, record, rest ++ [_], status', rfl, hcreator, hprepare, rfl, ?_⟩, hout.symm, ?_, by rintro _ ⟨⟩⟩
      · intro e he
        rcases List.mem_append.mp he with he | he
        · exact habout e he
        · obtain rfl := List.mem_singleton.mp he
          refine ⟨status, rfl, ?_⟩
          rw [hrow]
          exact ⟨rfl, hout⟩
      · rintro state ⟨⟩
        rfl

/-! ### The stripe locks -/

/-- A call inside its transition holds the lock of its stripe. -/
def Exclusive (calls : Calls ι) (s : System codec ι) : Prop :=
  ∀ i, (s.phase i).locked = true → s.holder (calls.stripe (calls.key i)) = some i

/-- Of the calls on one key, one at most is inside its transition. -/
theorem Exclusive.alone (h : Exclusive calls s) (hkey : calls.key j = calls.key i) (hj : (s.phase j).locked = true)
    (hi : (s.phase i).locked = true) : j = i := by
  have hholder := h j hj
  rw [hkey, h i hi] at hholder
  exact (Option.some.inj hholder).symm

/-! ### The invariant -/

/-- What a call on the key has in its hands. -/
def PhaseRight (calls : Calls ι) (value : Option RestorationState) (i : ι) : Phase → Prop
  | .idle | .releasing _ | .done _ => True
  | .preparing => ¬ ((calls.request i).payload = [] ∨ (calls.request i).payloadId = [])
  | .waiting prepared | .holding prepared => Ready calls value i prepared
  | .deciding prepared current => Ready calls value i prepared ∧ current = value
  | .writing current state =>
    (∃ prepared, Ready calls value i prepared ∧ calls.decide i prepared value = .ok state) ∧ current = value

structure Inv (calls : Calls ι) (k : Str) (s : System codec ι) : Prop where
  exclusive : Exclusive calls s
  failures : ∀ f ∈ s.failures calls k, calls.lifecycle f.1 none = (.error f.2, none)
  legal : calls.sequential.Legal none ((s.events calls k).map fun e => (e.call, e.answer))
  oneRecord : OneRecord calls k (s.events calls k) (s.record calls k)
  stored : (s.store.data.get? k).map Prod.snd = (s.record calls k).map codec.encode
  phase : ∀ i, calls.key i = k → PhaseRight calls (s.record calls k) i (s.phase i)
  nodup : ((s.order calls k).map Prod.fst).Nodup
  answers : ∀ i answer, (i, answer) ∈ s.order calls k ↔ calls.key i = k ∧ (s.phase i).answer? = some answer

/-- Without an expiry, what the store answers about the key is the record. -/
theorem Inv.recordAt (h : Inv calls k s) {t : Time} (hlive : ∀ entry, s.store.data.get? k = some entry → t < entry.1) :
    s.store.recordAt k t = .ok (s.record calls k) := by
  have hstored := h.stored
  cases hrecord : s.record calls k with
  | none =>
    rw [hrecord, Option.map_none, Option.map_eq_none_iff] at hstored
    rw [InMemoryRestorationStore.recordAt, hstored]
    rfl
  | some record =>
    rw [hrecord, Option.map_some] at hstored
    obtain ⟨⟨expires, token⟩, hget, rfl⟩ := Option.map_eq_some_iff.mp hstored
    have honeRecord := h.oneRecord
    rw [hrecord] at honeRecord
    rw [recordAt_of_live hget (hlive _ hget), codec.decode_encode_self honeRecord.payloadId_eq]
    rfl

/-- A lookup of an unexpired key finds the record, and leaves the entry. -/
theorem Inv.get (h : Inv calls k s) (i : ι) {now : Time}
    (hlive : ∀ entry, s.store.data.get? k = some entry → now < entry.1) :
    (calls.key i = k → (s.store.get (calls.key i) now).1 = .ok (s.record calls k)) ∧
      (s.store.get (calls.key i) now).2.data.get? k = s.store.data.get? k := by
  refine ⟨fun hkey => ?_, (purges_get s.store (calls.key i) now).get?_of_live k hlive⟩
  rw [(get_spec s.store (calls.key i) now).1, hkey, h.recordAt hlive]

/-- So does the read of a transition. -/
theorem Inv.transitionRead (h : Inv calls k s) (i : ι) {evictAt readAt : Time} (hle : evictAt ≤ readAt)
    (hlive : ∀ entry, s.store.data.get? k = some entry → readAt < entry.1) :
    (calls.key i = k → (s.store.transitionRead (calls.key i) evictAt readAt).1 = .ok (s.record calls k)) ∧
      (s.store.transitionRead (calls.key i) evictAt readAt).2.data.get? k = s.store.data.get? k := by
  refine ⟨fun hkey => ?_, (purges_transitionRead s.store (calls.key i) hle).get?_of_live k hlive⟩
  rw [transitionRead_recordAt s.store (calls.key i) hle, hkey, h.recordAt hlive]

/-- A record stays, so what the others are about to do stays right. -/
theorem PhaseRight.later (h : PhaseRight calls value i phase) (hfree : phase.locked = false)
    (hkept : value ≠ none → value' ≠ none) : PhaseRight calls value' i phase := by
  cases phase with
  | idle | releasing _ | done _ => trivial
  | preparing => exact h
  | waiting prepared => exact { h with found := fun hnone => hkept (h.found hnone) }
  | holding _ | deciding _ _ | writing _ _ => cases hfree

variable [DecidableEq ι]

/-! ### One step -/

/-- A call that stays inside its transition, or outside, or leaves the lock alone. -/
theorem Exclusive.move (h : Exclusive calls s) (hphase : s'.phase = Function.update s.phase i phase)
    (hholder : s'.holder = s.holder) (hlocked : phase.locked = true → (s.phase i).locked = true) :
    Exclusive calls s' := by
  intro j hj
  rw [hholder]
  rw [hphase] at hj
  by_cases hji : j = i
  · subst hji
    rw [Function.update_self] at hj
    exact h j (hlocked hj)
  · rw [Function.update_of_ne hji] at hj
    exact h j hj

theorem Exclusive.step {readings : List Time} (h : Exclusive calls s) (hstep : Step calls s readings s') :
    Exclusive calls s' := by
  cases hstep with
  | @reject i hi hempty => exact h.move rfl rfl (by rintro ⟨⟩)
  | @lookup i now found store hi hne hget =>
    refine h.move rfl rfl fun hlocked => ?_
    split at hlocked
    · cases hlocked
    · cases hlocked
  | @lookupFails i now e store hi hne hget => exact h.move rfl rfl (by rintro ⟨⟩)
  | @prepare i state hi hprepare => exact h.move rfl rfl (by rintro ⟨⟩)
  | @prepareFails i e hi hprepare => exact h.move rfl rfl (by rintro ⟨⟩)
  | @acquire i prepared hi hfree =>
    intro j hj
    show Function.update s.holder _ _ _ = _
    by_cases hji : j = i
    · subst hji
      exact Function.update_self _ _ _
    · have hholder := h j (by rwa [phase_moveTo, Function.update_of_ne hji] at hj)
      rw [Function.update_of_ne, hholder]
      intro hstripe
      rw [hstripe, hfree] at hholder
      cases hholder
  | @read i prepared evictAt readAt current store hi hle hread => exact h.move rfl rfl fun _ => by rw [hi]; rfl
  | @readFails i prepared evictAt readAt e store hi hle hread => exact h.move rfl rfl fun _ => by rw [hi]; rfl
  | @decide i prepared current state hi hdecide => exact h.move rfl rfl fun _ => by rw [hi]; rfl
  | @refuse i prepared current e hi hdecide => exact h.move rfl rfl fun _ => by rw [hi]; rfl
  | @write i current state writeAt store hi hwrite => exact h.move rfl rfl fun _ => by rw [hi]; rfl
  | @writeFails i current state writeAt e store hi hwrite => exact h.move rfl rfl fun _ => by rw [hi]; rfl
  | @release i answer hi =>
    intro j hj
    show Function.update s.holder _ _ _ = _
    by_cases hji : j = i
    · subst hji
      rw [phase_moveTo, Function.update_self] at hj
      cases hj
    · have hholder := h j (by rwa [phase_moveTo, Function.update_of_ne hji] at hj)
      rw [Function.update_of_ne, hholder]
      intro hstripe
      rw [hstripe, h i (by rw [hi]; rfl)] at hholder
      exact hji (Option.some.inj hholder).symm

/-- A step after which the record of the key and the answers of its calls are as before. -/
theorem Inv.move (h : Inv calls k s) (hexclusive : Exclusive calls s') (hphase : s'.phase = Function.update s.phase i phase)
    (hfailures : s'.failures calls k = s.failures calls k) (hevents : s'.events calls k = s.events calls k)
    (hget : s'.store.data.get? k = s.store.data.get? k)
    (hright : calls.key i = k → PhaseRight calls (s.record calls k) i phase ∧ phase.answer? = (s.phase i).answer?) :
    Inv calls k s' := by
  have hrecord : s'.record calls k = s.record calls k := by rw [System.record, hevents, ← System.record]
  have horder : s'.order calls k = s.order calls k := by rw [System.order, hfailures, hevents, ← System.order]
  refine ⟨hexclusive, ?_, ?_, ?_, ?_, ?_, ?_, ?_⟩
  · rw [hfailures]
    exact h.failures
  · rw [hevents]
    exact h.legal
  · rw [hevents, hrecord]
    exact h.oneRecord
  · rw [hget, hrecord]
    exact h.stored
  · intro j hj
    rw [hrecord, hphase]
    by_cases hji : j = i
    · subst hji
      rw [Function.update_self]
      exact (hright hj).1
    · rw [Function.update_of_ne hji]
      exact h.phase j hj
  · rw [horder]
    exact h.nodup
  · intro j answer
    rw [horder, h.answers, hphase]
    by_cases hji : j = i
    · subst hji
      rw [Function.update_self]
      exact and_congr_right fun hj => by rw [(hright hj).2]
    · rw [Function.update_of_ne hji]

theorem Inv.answered (h : Inv calls k s) {answer : Answer} (hi : calls.key i = k) (hpending : (s.phase i).answer? = none)
    (hphase : s'.phase = Function.update s.phase i phase) (hanswer : phase.answer? = some answer)
    (horder : (s'.order calls k).Perm ((i, answer) :: s.order calls k)) :
    ((s'.order calls k).map Prod.fst).Nodup ∧
      ∀ j answer, (j, answer) ∈ s'.order calls k ↔ calls.key j = k ∧ (s'.phase j).answer? = some answer := by
  have hnew : ∀ answer, (i, answer) ∉ s.order calls k := by
    intro answer hmem
    have hsome := ((h.answers i answer).mp hmem).2
    rw [hpending] at hsome
    cases hsome
  refine ⟨(horder.map Prod.fst).nodup_iff.mpr (List.nodup_cons.mpr ⟨fun hmem => ?_, h.nodup⟩), fun j answer' => ?_⟩
  · obtain ⟨x, hx, hxi⟩ := List.mem_map.mp hmem
    have hpair : x = (i, x.2) := Prod.ext hxi rfl
    rw [hpair] at hx
    exact hnew x.2 hx
  · rw [horder.mem_iff, List.mem_cons, h.answers, hphase]
    by_cases hji : j = i
    · subst hji
      rw [Function.update_self, hanswer, hpending]
      simp [hi, eq_comm]
    · rw [Function.update_of_ne hji]
      simp [hji]

theorem Inv.fail (h : Inv calls k s) {store : InMemoryRestorationStore codec}
    (hexclusive : Exclusive calls ((s.withStore store).fail i e)) (hpending : (s.phase i).answer? = none)
    (hget : store.data.get? k = s.store.data.get? k)
    (hlifecycle : calls.key i = k → calls.lifecycle i none = (.error e, none)) :
    Inv calls k ((s.withStore store).fail i e) := by
  by_cases hi : calls.key i = k
  · have hfailures : ((s.withStore store).fail i e).failures calls k = s.failures calls k ++ [(i, e)] := by
      simp [System.failures, System.withStore, hi]
    have horder : (((s.withStore store).fail i e).order calls k).Perm ((i, .error e) :: s.order calls k) := by
      rw [System.order, hfailures, List.map_append, List.append_assoc]
      exact List.perm_middle
    obtain ⟨hnodup, hanswers⟩ := h.answered hi hpending rfl rfl horder
    refine ⟨hexclusive, ?_, h.legal, h.oneRecord, ?_, ?_, hnodup, hanswers⟩
    · intro f hf
      rw [hfailures] at hf
      rcases List.mem_append.mp hf with hf | hf
      · exact h.failures f hf
      · obtain rfl := List.mem_singleton.mp hf
        exact hlifecycle hi
    · exact (congrArg _ hget).trans h.stored
    · intro j hj
      rw [phase_fail]
      by_cases hji : j = i
      · subst hji
        rw [Function.update_self]
        trivial
      · rw [Function.update_of_ne hji]
        exact h.phase j hj
  · refine h.move hexclusive rfl ?_ rfl hget fun hkey => absurd hkey hi
    simp [System.failures, System.withStore, hi]

/-- The transition of a call: its callback has gone by the record that there is. -/
theorem Inv.finish (h : Inv calls k s) (plain : calls.Plain k) {event : Event ι} {store : InMemoryRestorationStore codec}
    (hexclusive : Exclusive calls ((s.withStore store).finish event)) (hlocked : (s.phase event.call).locked = true)
    (hpending : (s.phase event.call).answer? = none)
    (hother : calls.key event.call ≠ k → store.data.get? k = s.store.data.get? k)
    (hcurrent : calls.key event.call = k → event.current = s.record calls k)
    (hresult : calls.key event.call = k → ∃ prepared, Ready calls (s.record calls k) event.call prepared ∧
      event.result = calls.decide event.call prepared (s.record calls k))
    (hstored : calls.key event.call = k → (store.data.get? k).map Prod.snd =
      (match event.result with
        | .ok state => some state
        | .error _ => s.record calls k).map codec.encode) :
    Inv calls k ((s.withStore store).finish event) := by
  by_cases hi : calls.key event.call = k
  · obtain ⟨prepared, ready, hdecide⟩ := hresult hi
    obtain ⟨honeRecord, hanswer, hok, herror⟩ := h.oneRecord.decide plain hi ready
    have hevent : event = ⟨event.call, s.record calls k, calls.decide event.call prepared (s.record calls k)⟩ := by
      rw [← hdecide, ← hcurrent hi]
    rw [← hevent] at honeRecord hanswer
    have hevents : ((s.withStore store).finish event).events calls k = s.events calls k ++ [event] := by
      simp [System.events, System.withStore, hi]
    have hrecord : ((s.withStore store).finish event).record calls k =
        (calls.lifecycle event.call (s.record calls k)).2 := by
      rw [System.record, hevents, List.map_append, List.map_singleton, Object.after_snoc]
      rfl
    have horder : (((s.withStore store).finish event).order calls k).Perm
        ((event.call, event.answer) :: s.order calls k) := by
      rw [System.order, hevents, List.map_append, ← List.append_assoc]
      exact List.perm_append_singleton _ _
    obtain ⟨hnodup, hanswers⟩ := h.answered hi hpending rfl rfl horder
    have hkept : s.record calls k ≠ none → (calls.lifecycle event.call (s.record calls k)).2 ≠ none := by
      intro hsome
      cases hd : calls.decide event.call prepared (s.record calls k) with
      | ok state => simp [hok state hd]
      | error e =>
        rw [herror e hd]
        exact hsome
    refine ⟨hexclusive, h.failures, ?_, ?_, ?_, ?_, hnodup, hanswers⟩
    · rw [hevents, List.map_append, List.map_singleton]
      exact Object.legal_snoc.mpr ⟨h.legal, hanswer⟩
    · rw [hevents, hrecord]
      exact honeRecord
    · rw [hrecord]
      refine (hstored hi).trans (congrArg _ ?_)
      rw [hdecide]
      cases hd : calls.decide event.call prepared (s.record calls k) with
      | ok state => exact (hok state hd).symm
      | error e => exact (herror e hd).symm
    · intro j hj
      rw [hrecord, phase_finish]
      by_cases hji : j = event.call
      · subst hji
        rw [Function.update_self]
        trivial
      · rw [Function.update_of_ne hji]
        refine (h.phase j hj).later ?_ hkept
        by_contra hjlocked
        exact hji (h.exclusive.alone (hj.trans hi.symm) (by simpa using hjlocked) hlocked)
  · refine h.move hexclusive rfl rfl ?_ (hother hi) fun hkey => absurd hkey hi
    simp [System.events, System.withStore, hi]

theorem Inv.step {readings : List Time} (h : Inv calls k s) (plain : calls.Plain k) (calm : Calm calls k s readings)
    (hstep : Step calls s readings s') : Inv calls k s' := by
  have hexclusive := h.exclusive.step hstep
  cases hstep with
  | @reject i hi hempty =>
    have hpending : (s.phase i).answer? = none := by rw [hi]; rfl
    exact h.fail hexclusive hpending rfl fun _ => by rw [Calls.lifecycle, if_pos hempty]
  | @lookup i now found store hi hne hget =>
    have hlive := fun entry hentry => calm.unexpired entry hentry now (List.mem_singleton_self now)
    obtain ⟨hfound, hsame⟩ := h.get i hlive
    rw [hget] at hfound hsame
    refine h.move hexclusive rfl rfl rfl hsame fun hkey => ?_
    obtain rfl := Except.ok.inj (hfound hkey)
    rw [hi]
    cases hrecord : s.record calls k with
    | none => exact ⟨hne, rfl⟩
    | some record => exact ⟨⟨hne, by rintro _ ⟨⟩, fun _ => Option.some_ne_none record⟩, rfl⟩
  | @lookupFails i now e store hi hne hget =>
    have hlive := fun entry hentry => calm.unexpired entry hentry now (List.mem_singleton_self now)
    have hpending : (s.phase i).answer? = none := by rw [hi]; rfl
    obtain ⟨hfound, hsame⟩ := h.get i hlive
    rw [hget] at hfound hsame
    refine h.fail hexclusive hpending hsame fun hkey => ?_
    cases hfound hkey
  | @prepare i state hi hprepare =>
    refine h.move hexclusive rfl rfl rfl rfl fun hkey => ?_
    have hphase := h.phase i hkey
    rw [hi] at hphase ⊢
    refine ⟨⟨hphase, ?_, by rintro ⟨⟩⟩, rfl⟩
    rintro _ ⟨⟩
    exact hprepare
  | @prepareFails i e hi hprepare =>
    have hpending : (s.phase i).answer? = none := by rw [hi]; rfl
    refine h.fail hexclusive hpending rfl fun hkey => ?_
    have hphase := h.phase i hkey
    rw [hi] at hphase
    rw [Calls.lifecycle, if_neg hphase, hprepare]
  | @acquire i prepared hi hfree =>
    refine h.move hexclusive rfl rfl rfl rfl fun hkey => ?_
    have hphase := h.phase i hkey
    rw [hi] at hphase ⊢
    exact ⟨hphase, rfl⟩
  | @read i prepared evictAt readAt current store hi hle hread =>
    have hlive := fun entry hentry => calm.unexpired entry hentry readAt (by simp)
    obtain ⟨hcurrent, hsame⟩ := h.transitionRead i hle hlive
    rw [hread] at hcurrent hsame
    refine h.move hexclusive rfl rfl rfl hsame fun hkey => ?_
    have hphase := h.phase i hkey
    rw [hi] at hphase ⊢
    exact ⟨⟨hphase, Except.ok.inj (hcurrent hkey)⟩, rfl⟩
  | @readFails i prepared evictAt readAt e store hi hle hread =>
    have hlive := fun entry hentry => calm.unexpired entry hentry readAt (by simp)
    obtain ⟨hcurrent, hsame⟩ := h.transitionRead i hle hlive
    rw [hread] at hcurrent hsame
    refine h.move hexclusive rfl rfl rfl hsame fun hkey => ?_
    cases hcurrent hkey
  | @decide i prepared current state hi hdecide =>
    refine h.move hexclusive rfl rfl rfl rfl fun hkey => ?_
    have hphase := h.phase i hkey
    rw [hi] at hphase ⊢
    obtain ⟨hready, rfl⟩ := hphase
    exact ⟨⟨⟨prepared, hready, hdecide⟩, rfl⟩, rfl⟩
  | @refuse i prepared current e hi hdecide =>
    have hphase := h.phase i
    rw [hi] at hphase
    refine h.finish plain hexclusive (by rw [hi]; rfl) (by rw [hi]; rfl) (fun _ => rfl) (fun hkey => (hphase hkey).2)
      (fun hkey => ⟨prepared, (hphase hkey).1, ?_⟩) fun _ => h.stored
    rw [← (hphase hkey).2]
    exact hdecide.symm
  | @write i current state writeAt store hi hwrite =>
    have hphase := h.phase i
    rw [hi] at hphase
    have hstore := transitionWrite_ok hwrite
    refine h.finish plain hexclusive (by rw [hi]; rfl) (by rw [hi]; rfl) (fun hother => ?_) (fun hkey => (hphase hkey).2)
      (fun hkey => ?_) fun hkey => ?_
    · rw [hstore, get?_put hother.symm]
    · obtain ⟨⟨prepared, hready, hdecide⟩, -⟩ := hphase hkey
      exact ⟨prepared, hready, hdecide.symm⟩
    · rw [hstore, ← hkey, get?_put_self]
      rfl
  | @writeFails i current state writeAt e store hi hwrite =>
    have hstore := transitionWrite_error (congrArg Prod.fst hwrite)
    rw [hwrite] at hstore
    obtain rfl : store = s.store := hstore
    refine h.move hexclusive rfl rfl rfl rfl fun hkey => ?_
    have hroom := calm.room i current state hi hkey
    rw [hkey, transitionWrite, if_neg (by simp [hroom])] at hwrite
    cases hwrite
  | @release i answer hi =>
    refine h.move hexclusive rfl rfl rfl rfl fun hkey => ?_
    rw [hi]
    exact ⟨trivial, rfl⟩

theorem Inv.steps (h : Inv calls k s) (plain : calls.Plain k)
    (hsteps : Relation.ReflTransGen
      (fun s s' => ∃ readings, Calm calls k s readings ∧ Step calls s readings s') s s') :
    Inv calls k s' := by
  induction hsteps with
  | refl => exact h
  | tail _ hstep ih =>
    obtain ⟨readings, hcalm, hstep⟩ := hstep
    exact ih.step plain hcalm hstep

/-! ### One after the other -/

omit [DecidableEq ι] in
/-- The answers that a call can get which finds the record. -/
theorem About.answers {record : RestorationState} {event : Event ι} (h : About calls record event) :
    ∃ status, event.current = some (withStatus record status) ∧
      (event.answer = .ok (outcome record.maskedText .mask record) ∨
        event.answer = .ok (outcome record.originalText .demask record) ∨ event.answer = .error mismatch) ∧
      (status = .masked → (calls.request event.call).payload = record.originalText →
        event.answer = .ok (outcome record.maskedText .mask record)) ∧
      ((calls.request event.call).payload ≠ record.originalText → (calls.request event.call).payload ≠ record.maskedText →
        event.answer = .error mismatch) := by
  obtain ⟨status, hcurrent, htable⟩ := h
  have herror : event.result = .error mismatch → event.answer = .error mismatch := by
    intro hresult
    rw [Event.answer, hresult]
    rfl
  refine ⟨status, hcurrent, ?_⟩
  cases status with
  | masked =>
    by_cases horiginal : (calls.request event.call).payload = record.originalText
    · rw [table, if_pos horiginal] at htable
      exact ⟨Or.inl htable.2, fun _ _ => htable.2, fun hne => absurd horiginal hne⟩
    · by_cases hmask : (calls.request event.call).payload = record.maskedText
      · rw [table, if_neg horiginal, if_pos hmask] at htable
        exact ⟨Or.inr (Or.inl htable.2), fun _ h => absurd h horiginal, fun _ hne => absurd hmask hne⟩
      · rw [table, if_neg horiginal, if_neg hmask] at htable
        exact ⟨Or.inr (Or.inr (herror htable)), fun _ h => absurd h horiginal, fun _ _ => herror htable⟩
  | demasked =>
    by_cases hmask : (calls.request event.call).payload = record.maskedText
    · rw [table, if_pos hmask] at htable
      exact ⟨Or.inr (Or.inl htable.2), by rintro ⟨⟩, fun _ hne => absurd hmask hne⟩
    · rw [table, if_neg hmask] at htable
      exact ⟨Or.inr (Or.inr (herror htable)), by rintro ⟨⟩, fun _ _ => herror htable⟩

/-- In a calm run that begins without a record of the key, the calls on the key get the answers that they get one after
    the other, and leave the record behind that is left then. As soon as there is a transition, one call has created the
    record, and all the others have found that record in some status. Calls of one consumer on one payload id have one
    key. -/
theorem answered_one_after_another (calls : Calls ι) (k : Str) (plain : calls.Plain k)
    (store : InMemoryRestorationStore codec) (new : store.data.get? k = none) (s : System codec ι)
    (run : Relation.ReflTransGen (fun s s' => ∃ readings, Calm calls k s readings ∧ Step calls s readings s')
      (System.start ι store) s) :
    (calls.sequential.Legal none (s.order calls k) ∧
        (s.store.data.get? k).map Prod.snd = (calls.sequential.after none (s.order calls k)).map codec.encode) ∧
      (((s.order calls k).map Prod.fst).Nodup ∧
        ∀ i answer, (i, answer) ∈ s.order calls k ↔ calls.key i = k ∧ (s.phase i).answer? = some answer) ∧
      (s.events calls k = [] ∧ s.store.data.get? k = none ∨
        ∃ creator record rest, s.events calls k = ⟨creator, none, .ok record⟩ :: rest ∧
          calls.prepare creator = .ok record ∧
          (∃ status, (s.store.data.get? k).map Prod.snd = some (codec.encode (withStatus record status))) ∧
          ∀ event ∈ rest, ∃ status, event.current = some (withStatus record status) ∧
            (event.answer = .ok (outcome record.maskedText .mask record) ∨
              event.answer = .ok (outcome record.originalText .demask record) ∨ event.answer = .error mismatch) ∧
            (status = .masked → (calls.request event.call).payload = record.originalText →
              event.answer = .ok (outcome record.maskedText .mask record)) ∧
            ((calls.request event.call).payload ≠ record.originalText →
              (calls.request event.call).payload ≠ record.maskedText → event.answer = .error mismatch)) := by
  have hstart : Inv calls k (System.start ι store) := by
    refine ⟨by rintro _ ⟨⟩, by rintro _ ⟨⟩, trivial, Or.inl ⟨rfl, rfl⟩, ?_, fun _ _ => trivial, List.nodup_nil, ?_⟩
    · exact congrArg _ new
    · exact fun i answer => ⟨by rintro ⟨⟩, by rintro ⟨-, ⟨⟩⟩⟩
  have hinv := hstart.steps plain run
  -- The failures come first: they find no record, and leave none behind.
  have hfailures : calls.sequential.Legal none ((s.failures calls k).map fun f => (f.1, .error f.2)) ∧
      calls.sequential.after none ((s.failures calls k).map fun f => (f.1, .error f.2)) = none := by
    refine Object.legal_of_idle fun x hx => ?_
    obtain ⟨f, hf, rfl⟩ := List.mem_map.mp hx
    have hlifecycle := hinv.failures f hf
    exact ⟨congrArg Prod.fst hlifecycle, congrArg Prod.snd hlifecycle⟩
  refine ⟨⟨?_, ?_⟩, ⟨hinv.nodup, hinv.answers⟩, ?_⟩
  · rw [System.order, Object.legal_append, hfailures.2]
    exact ⟨hfailures.1, hinv.legal⟩
  · rw [System.order, Object.after_append, hfailures.2]
    exact hinv.stored
  · have hstored := hinv.stored
    rcases hinv.oneRecord with ⟨hnone, hrecord⟩ | ⟨creator, record, rest, status, hevents, -, hprepare, hrecord, habout⟩
    · rw [hrecord, Option.map_none, Option.map_eq_none_iff] at hstored
      exact Or.inl ⟨hnone, hstored⟩
    · rw [hrecord] at hstored
      exact Or.inr ⟨creator, record, rest, hevents, hprepare, ⟨status, hstored⟩, fun event he => (habout event he).answers⟩

end

theorem exchange_plain : exchange.Plain (exchange.key true) where
  enabled _ _ := rfl
  hashPayload _ _ _ _ h := h

/-- Two calls that have both found no record: the first one creates it, and the second one gets its original. -/
theorem answered_one_after_another_exchange : ∃ s : System Codec.plain Bool,
    s.phase true = .done (.ok ⟨"a@b.ru".toList, .demask, 1, ["EMAIL".toList]⟩) ∧
      (true, .ok ⟨"a@b.ru".toList, .demask, 1, ["EMAIL".toList]⟩) ∈ s.order exchange (exchange.key true) ∧
      exchange.sequential.Legal none (s.order exchange (exchange.key true)) := by
  obtain ⟨s, hrun, hdone⟩ := exchange_runs
  obtain ⟨⟨hlegal, -⟩, ⟨-, hanswers⟩, -⟩ :=
    answered_one_after_another exchange (exchange.key true) exchange_plain (new Codec.plain 60 10) rfl s hrun
  exact ⟨s, hdone, (hanswers true _).mpr ⟨rfl, by rw [hdone]; rfl⟩, hlegal⟩

/-- One call, without a payload. -/
def emptyCall : Calls Unit where
  digests := Digests.plain
  around _ := Surroundings.plain
  request _ := ⟨[], "1".toList, ConsumerPolicy.default⟩
  stripe _ := 0

/-- All calls on the id are over, and none of them has created a record. -/
theorem no_call_creates : emptyCall.Plain (emptyCall.key ()) ∧ ∃ s : System Codec.plain Unit,
    Relation.ReflTransGen
      (fun s s' => ∃ readings, Calm emptyCall (emptyCall.key ()) s readings ∧ Step emptyCall s readings s')
      (System.start Unit (new Codec.plain 60 10)) s ∧
    (∀ i, s.phase i = .done (.error missing)) ∧ ¬ ∃! i, ∃ record, ⟨i, none, .ok record⟩ ∈ s.log := by
  refine ⟨⟨fun _ _ => rfl, fun _ _ _ _ h => h⟩, _, Relation.ReflTransGen.single ⟨[], ⟨by rintro _ ⟨⟩, by rintro _ _ _ ⟨⟩⟩,
    .reject (i := ()) rfl (Or.inl rfl)⟩, fun _ => rfl, ?_⟩
  rintro ⟨i, ⟨record, hlog⟩, -⟩
  cases hlog

end PiiProxy.ProcessService
