import PiiProxy.Lib.Simulation
import PiiProxy.Processing.RedisConcurrent
import PiiProxy.Theorems.Atomic
import PiiProxy.Theorems.PreparedOnce

/-! # Redis makes the calls atomic

The calls over Redis are a run of the same machine as those over the in-memory store, whatever expires between two of
their commands. A call takes effect with the `EXEC` that is not aborted, or with the error of its callback. -/

namespace PiiProxy.ProcessService.Redis
open RedisRestorationStore Relation

section
variable {codec : Codec} {ι : Type} {calls : Calls ι} {s s' : System codec ι} {a a' : Atomic ι} {i j : ι} {k : Str}
  {phase : Phase} {touched : Bool} {e : PIIProxyError} {answer : Answer}

/-! ### The simulation -/

/-- What a call has in its hands. While its key is untouched, the callback has seen the record that there is. -/
def PhaseLinked (calls : Calls ι) (a : Atomic ι) (i : ι) (touched : Bool) : Phase → Prop
  | .idle | .done _ => True
  | .preparing => calls.Named i
  | .pending prepared _ | .watching prepared _ => calls.Named i ∧ calls.Brings i prepared
  | .ready prepared _ state => calls.Named i ∧ calls.Brings i prepared ∧
    ∃ current, calls.Decides i current (.ok state) ∧ (touched = false → a.records (calls.key i) = current)

structure Linked (calls : Calls ι) (s : System codec ι) (a : Atomic ι) : Prop where
  answers : ∀ i, a.answers i = (s.phase i).answer?
  values : ∀ i, s.values (calls.redisKey i) = (a.records (calls.key i)).map codec.encode
  payloadId : ∀ k record, a.records k = some record → record.payloadId = k
  phase : ∀ i, PhaseLinked calls a i (s.touched i) (s.phase i)

theorem Linked.start (codec : Codec) (calls : Calls ι) : Linked calls (System.start codec ι) (Atomic.start ι) where
  answers i := rfl
  values i := rfl
  payloadId k record hrecord := by cases hrecord
  phase i := trivial

/-- The key has what the machine has. -/
theorem Linked.found (h : Linked calls s a) (i : ι) : s.found calls i = .ok (a.records (calls.key i)) := by
  rw [System.found, h.values i]
  cases hrecord : a.records (calls.key i) with
  | none => rfl
  | some record =>
    show (codec.decode (calls.key i) (codec.encode record)).map some = _
    rw [codec.decode_encode_self (h.payloadId _ record hrecord)]
    rfl

/-- A call does not mind what becomes of a key of which it is told. -/
theorem PhaseLinked.later {touched' : Bool} (h : PhaseLinked calls a i touched phase)
    (hrecord : touched' = false → touched = false ∧ a'.records (calls.key i) = a.records (calls.key i)) :
    PhaseLinked calls a' i touched' phase := by
  cases phase with
  | idle | preparing | pending | watching | done => exact h
  | ready prepared attempt state =>
    obtain ⟨hnamed, hbrings, current, hdecides, hcurrent⟩ := h
    refine ⟨hnamed, hbrings, current, hdecides, fun hfree => ?_⟩
    obtain ⟨hbefore, hsame⟩ := hrecord hfree
    exact hsame.trans (hcurrent hbefore)

theorem redisKey_inj (hhmac : Set.InjOn calls.client.hmac (Set.range calls.key)) (h : calls.redisKey i = calls.redisKey j) :
    calls.key i = calls.key j :=
  hhmac ⟨i, rfl⟩ ⟨j, rfl⟩ (Client.hmac_eq h)

/-- A key is written or expires: the machine's record of it follows. -/
theorem Linked.write (h : Linked calls s a) (hhmac : Set.InjOn calls.client.hmac (Set.range calls.key))
    {value : Option RestorationState} (hid : ∀ record, value = some record → record.payloadId = calls.key i) :
    Linked calls (s.write calls (calls.redisKey i) (value.map codec.encode)) (a.setRecord (calls.key i) value) := by
  refine ⟨h.answers, fun j => ?_, fun k record hrecord => ?_, fun j => ?_⟩
  · rw [values_write, Atomic.records_setRecord]
    by_cases hkey : calls.key j = calls.key i
    · have hredis : calls.redisKey j = calls.redisKey i := congrArg calls.client.key hkey
      rw [hredis, hkey, Function.update_self, Function.update_self]
    · rw [Function.update_of_ne fun hredis => hkey (redisKey_inj hhmac hredis), Function.update_of_ne hkey]
      exact h.values j
  · rw [Atomic.records_setRecord] at hrecord
    by_cases hk : k = calls.key i
    · subst hk
      rw [Function.update_self] at hrecord
      exact hid record hrecord
    · rw [Function.update_of_ne hk] at hrecord
      exact h.payloadId k record hrecord
  · refine (h.phase j).later fun hfree => ?_
    change (if calls.redisKey j = calls.redisKey i then true else s.touched j) = false at hfree
    split at hfree
    · cases hfree
    · rename_i hredis
      exact ⟨hfree, Function.update_of_ne (fun hkey => hredis (congrArg calls.client.key hkey)) _ _⟩

variable [DecidableEq ι]

/-- A call moves, and may get its answer. -/
theorem Linked.move (h : Linked calls s a) (hphase : s'.phase = Function.update s.phase i phase)
    (hvalues : s'.values = s.values) (htouched : ∀ j, j ≠ i → s'.touched j = s.touched j)
    (hanswers : a'.answers = Function.update a.answers i phase.answer?) (hrecords : a'.records = a.records)
    (hown : PhaseLinked calls a i (s'.touched i) phase) : Linked calls s' a' := by
  refine ⟨fun j => ?_, fun j => ?_, ?_, fun j => ?_⟩
  · rw [hanswers, hphase]
    by_cases hji : j = i
    · subst hji
      rw [Function.update_self, Function.update_self]
    · rw [Function.update_of_ne hji, Function.update_of_ne hji]
      exact h.answers j
  · rw [hvalues, hrecords]
    exact h.values j
  · rw [hrecords]
    exact h.payloadId
  · rw [hphase]
    by_cases hji : j = i
    · subst hji
      rw [Function.update_self]
      exact hown.later fun hfree => ⟨hfree, by rw [hrecords]⟩
    · rw [Function.update_of_ne hji, htouched j hji]
      exact (h.phase j).later fun hfree => ⟨hfree, by rw [hrecords]⟩

/-- A call moves, and the machine does nothing. -/
theorem Linked.stutter (h : Linked calls s a) (hphase : s'.phase = Function.update s.phase i phase)
    (hvalues : s'.values = s.values) (htouched : ∀ j, j ≠ i → s'.touched j = s.touched j)
    (hpending : (s.phase i).answer? = none) (hanswer : phase.answer? = none)
    (hown : PhaseLinked calls a i (s'.touched i) phase) :
    ∃ a', ReflTransGen (Atomic.Step calls.toCallers) a a' ∧ Linked calls s' a' := by
  refine ⟨a, .refl, h.move hphase hvalues htouched ?_ rfl hown⟩
  rw [hanswer, ← hpending, ← h.answers i, Function.update_eq_self]

/-- A call ends, and leaves the records alone. -/
theorem Linked.finish (h : Linked calls s a) (hstep : Atomic.Step calls.toCallers a (a.reply i answer)) :
    ∃ a', ReflTransGen (Atomic.Step calls.toCallers) a a' ∧ Linked calls (s.moveTo i (.done answer)) a' :=
  ⟨_, .single hstep, h.move rfl rfl (fun _ _ => rfl) rfl rfl trivial⟩

theorem linked_step (hhmac : Set.InjOn calls.client.hmac (Set.range calls.key)) :
    Simulates (Step calls : System codec ι → System codec ι → Prop) (Atomic.Step calls.toCallers) (Linked calls) := by
  intro s s' a h hstep
  have hunanswered : ∀ {i : ι} {phase : Phase}, s.phase i = phase → phase.answer? = none → a.answers i = none := by
    intro i phase hi hnone
    rw [h.answers i, hi]
    exact hnone
  have hlinked : ∀ {i : ι} {phase : Phase}, s.phase i = phase → PhaseLinked calls a i (s.touched i) phase := by
    intro i phase hi
    have hphase := h.phase i
    rwa [hi] at hphase
  cases hstep with
  | @reject i hi hunnamed => exact h.finish (.fail (hunanswered hi rfl) (.missing hunnamed))
  | @lookup i found hi hnamed hfound =>
    refine h.stutter rfl rfl (fun _ _ => rfl) (by rw [hi]; rfl) ?_ ?_
    · split <;> rfl
    · split
      · exact ⟨hnamed, fun record hrecord => by cases hrecord⟩
      · exact hnamed
  | @lookupFails i e hi hnamed hfound =>
    rw [h.found i] at hfound
    cases hfound
  | @prepare i record hi hprepare =>
    refine h.stutter rfl rfl (fun _ _ => rfl) (by rw [hi]; rfl) rfl ⟨hlinked hi, fun record' hrecord => ?_⟩
    obtain rfl := Option.some.inj hrecord
    exact ⟨0, hprepare⟩
  | @prepareFails i e hi hprepare => exact h.finish (.fail (hunanswered hi rfl) (.prepare hprepare))
  | @watch i prepared attempt hi hlt =>
    have hbrings : PhaseLinked calls a i (s.touched i) (.pending prepared attempt) := hlinked hi
    exact h.stutter rfl rfl (fun j hji => Function.update_of_ne hji _ _) (by rw [hi]; rfl) rfl hbrings
  | @read i prepared attempt current state hi hfound hdecide =>
    obtain ⟨hnamed, hbrings⟩ := hlinked hi
    rw [h.found i] at hfound
    exact h.stutter rfl rfl (fun _ _ => rfl) (by rw [hi]; rfl) rfl
      ⟨hnamed, hbrings, current, ⟨attempt, prepared, hbrings, hdecide⟩, fun _ => Except.ok.inj hfound⟩
  | @readFails i prepared attempt e hi hfound =>
    rw [h.found i] at hfound
    cases hfound
  | @refuse i prepared attempt current e hi hfound hdecide =>
    obtain ⟨hnamed, hbrings⟩ := hlinked hi
    rw [h.found i] at hfound
    obtain rfl := Except.ok.inj hfound
    exact h.finish (.refuse (hunanswered hi rfl) hnamed ⟨attempt, prepared, hbrings, hdecide⟩)
  | @execute i prepared attempt state hi hfree httl =>
    obtain ⟨hnamed, hbrings, current, hdecides, hcurrent⟩ := hlinked hi
    obtain rfl := hcurrent hfree
    have hid : state.payloadId = calls.key i := Callers.Decides.payloadId hdecides fun record => h.payloadId _ record
    refine ⟨_, .single (.commit (hunanswered hi rfl) hnamed hdecides), ?_⟩
    have hwritten : Linked calls (s.write calls (calls.redisKey i) ((some state).map codec.encode))
        (a.setRecord (calls.key i) (some state)) := by
      refine h.write hhmac fun record hrecord => ?_
      obtain rfl := Option.some.inj hrecord
      exact hid
    exact hwritten.move rfl rfl (fun _ _ => rfl) rfl rfl trivial
  | @executeFails i prepared attempt state hi hfree httl =>
    exact h.finish (.fail (hunanswered hi rfl) (.store (by simp [Callers.storeErrors])))
  | @abort i prepared attempt state hi htouched =>
    obtain ⟨hnamed, hbrings, -⟩ := hlinked hi
    exact h.stutter rfl rfl (fun _ _ => rfl) (by rw [hi]; rfl) rfl ⟨hnamed, hbrings⟩
  | @giveUp i prepared hi =>
    exact h.finish (.fail (hunanswered hi rfl) (.store (by simp [Callers.storeErrors])))
  | @expire redisKey hsome =>
    by_cases hused : ∃ i, calls.redisKey i = redisKey
    · obtain ⟨i, rfl⟩ := hused
      have hexpired : Linked calls (s.write calls (calls.redisKey i) ((none : Option RestorationState).map codec.encode))
          (a.setRecord (calls.key i) none) := h.write hhmac fun record hrecord => by cases hrecord
      exact ⟨_, .single (.forget (calls.key i)), hexpired⟩
    · -- A key of none of the calls.
      refine ⟨a, .refl, h.answers, fun i => ?_, h.payloadId, fun i => ?_⟩
      · rw [values_write, Function.update_of_ne fun hredis => hused ⟨i, hredis⟩]
        exact h.values i
      · have htouched : (s.write calls redisKey none).touched i = s.touched i := if_neg fun hredis => hused ⟨i, hredis⟩
        rw [htouched]
        exact h.phase i

/-- Any run of the calls over Redis is one of the machine: it has given the same answers, and each key has the machine's
    record. So every answer goes back to a MASK answer on its key. -/
theorem redis_is_atomic (calls : Calls ι) (hhmac : Set.InjOn calls.client.hmac (Set.range calls.key)) (s : System codec ι)
    (hsteps : ReflTransGen (Step calls) (System.start codec ι) s) :
    (∃ a, ReflTransGen (Atomic.Step calls.toCallers) (Atomic.start ι) a ∧ (∀ i, a.answers i = (s.phase i).answer?) ∧
        ∀ i, s.found calls i = .ok (a.records (calls.key i))) ∧
      ∀ i out, (s.phase i).answer? = some (.ok out) →
        ∃ j mask, GoesBack calls.toCallers (fun i => (s.phase i).answer?) i out j mask := by
  obtain ⟨a, hsteps', hlinked⟩ := (linked_step hhmac).run (Linked.start codec calls) hsteps
  have hanswers : a.answers = fun i => (s.phase i).answer? := funext hlinked.answers
  refine ⟨⟨a, hsteps', hlinked.answers, hlinked.found⟩, fun i out hi => ?_⟩
  have hgrounded := (Grounded.start calls.toCallers).steps hsteps'
  rw [← hanswers]
  exact hgrounded.goesBack ((hlinked.answers i).trans hi)

end

/-- The calls of the exchange, over Redis. -/
def redisExchange : Calls Bool := { exchange.callers with client := redisClient }

/-- Both find no record and prepare one, and both have read that there is none. The first creates its own; the second is
    aborted, and presents the mask of the first in its next attempt. -/
theorem redisExchange_runs : ∃ s : System Codec.plain Bool, ReflTransGen (Step redisExchange) (System.start Codec.plain Bool) s ∧
    s.phase true = .done (outcomeFromState (some (withStatus exchanged .demasked))) := by
  have hdecode : Codec.plain.decode (exchange.key true) (Codec.plain.encode exchanged) = .ok exchanged :=
    Codec.decode_encode_self Codec.plain rfl
  have hdecide : redisExchange.decide true 1 (some raced) (some exchanged) = .ok (withStatus exchanged .demasked) := by
    decide +kernel
  have hcreate : redisExchange.decide false 0 (some exchanged) none = .ok exchanged := rfl
  have hraced : redisExchange.decide true 0 (some raced) none = .ok raced := rfl
  have prepared : ReflTransGen (Step redisExchange) (System.start Codec.plain Bool) _ :=
    (((ReflTransGen.single (.lookup (i := false) rfl (by decide) rfl)).tail
      (.lookup (i := true) rfl (by decide) rfl)).tail
      (.prepare (i := false) rfl exchange_prepare)).tail
      (.prepare (i := true) rfl exchange_prepare_raced)
  have created := ((((prepared.tail (.watch (i := false) rfl (by decide))).tail
      (.watch (i := true) rfl (by decide))).tail
      (.read (i := false) rfl rfl hcreate)).tail
      (.read (i := true) rfl rfl hraced)).tail
      (.execute (i := false) rfl rfl (by decide))
  have again := (created.tail (.abort (i := true) rfl rfl)).tail (.watch (i := true) rfl (by decide))
  have hfound := congrArg (Except.map some) hdecode
  exact ⟨_, (again.tail (.read (i := true) rfl hfound hdecide)).tail (.execute (i := true) rfl rfl (by decide)), rfl⟩

/-- The second call gets back what the first one has sent. -/
theorem redis_is_atomic_exchange : ∃ s : System Codec.plain Bool,
    s.phase true = .done (.ok ⟨"a@b.ru".toList, .demask, 1, ["EMAIL".toList]⟩) ∧
      ∃ j mask, GoesBack redisExchange.toCallers (fun i => (s.phase i).answer?) true
        ⟨"a@b.ru".toList, .demask, 1, ["EMAIL".toList]⟩ j mask := by
  obtain ⟨s, hsteps, hdone⟩ := redisExchange_runs
  have hhmac : Set.InjOn redisExchange.client.hmac (Set.range redisExchange.key) := fun _ _ _ _ h => h
  obtain ⟨-, hback⟩ := redis_is_atomic redisExchange hhmac s hsteps
  exact ⟨s, hdone, hback true _ (by rw [hdone]; rfl)⟩

end PiiProxy.ProcessService.Redis
