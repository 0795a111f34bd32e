import PiiProxy.Processing.Concurrent

/-! # Consumers are kept apart

Keys of different ids differ. Whatever the interleaving of the calls, and whatever records of other consumers the store
had before, an original text goes only to the consumer that sent it, under the id under which it was sent. -/

namespace PiiProxy.ProcessService
open InMemoryRestorationStore

section
variable {codec : Codec} {ι : Type} {calls : Calls ι} {consumerId : Str} {log log' : List (Event ι)} {k : Str}
  {r : RestorationState} {i : ι} {phase : Phase} {s s' : System codec ι}

/-- The call `j` of the consumer created, under the key `k`, the record that is now `r`. -/
structure CreatedBy (calls : Calls ι) (consumerId : Str) (log : List (Event ι)) (k : Str) (r : RestorationState)
    (j : ι) (record : RestorationState) : Prop where
  event : ⟨j, none, .ok record⟩ ∈ log
  key : calls.key j = k
  consumer : calls.consumer j = consumerId
  prepared : PreparedBy calls.digests (calls.request j).payload k consumerId record
  originalText : r.originalText = record.originalText
  maskedText : r.maskedText = record.maskedText

/-- If the record is the consumer's, one of its calls created it. -/
def Sourced (calls : Calls ι) (consumerId : Str) (log : List (Event ι)) (k : Str) (r : RestorationState) : Prop :=
  r.consumerId = consumerId → ∃ j record, CreatedBy calls consumerId log k r j record

theorem Sourced.mono (h : Sourced calls consumerId log k r) (hlog : log <+: log') : Sourced calls consumerId log' k r := by
  intro hconsumer
  obtain ⟨j, record, hcreated⟩ := h hconsumer
  exact ⟨j, record, { hcreated with event := hlog.subset hcreated.event }⟩

/-- The source of a record is that of its texts. -/
theorem Sourced.of_texts {r' : RestorationState} (h : Sourced calls consumerId log k r)
    (hconsumer : r'.consumerId = r.consumerId) (horiginal : r'.originalText = r.originalText)
    (hmask : r'.maskedText = r.maskedText) : Sourced calls consumerId log k r' := by
  intro hr'
  obtain ⟨j, record, hcreated⟩ := h (hconsumer.symm.trans hr')
  exact ⟨j, record, { hcreated with
    originalText := horiginal.trans hcreated.originalText, maskedText := hmask.trans hcreated.maskedText }⟩

/-- The record of a call that has found none. -/
def Prepared (calls : Calls ι) (i : ι) (r : RestorationState) : Prop :=
  PreparedBy calls.digests (calls.request i).payload (calls.key i) (calls.consumer i) r

/-- A transition that gives the original text to the consumer came after the creation of the record. -/
def Returned (calls : Calls ι) (consumerId : Str) (log : List (Event ι)) (i : ι) (out : ProcessOutcome) : Prop :=
  ∃ before after current state, log = before ++ ⟨i, some current, .ok state⟩ :: after ∧
    current.consumerId = calls.consumer i ∧ Sourced calls consumerId before (calls.key i) current ∧
    current.originalText = out.result ∧ current.maskedText = (calls.request i).payload

/-- What a call holds in its hands has a source. -/
def PhaseSourced (calls : Calls ι) (consumerId : Str) (log : List (Event ι)) (i : ι) : Phase → Prop
  | .idle | .preparing => True
  | .waiting prepared | .holding prepared => ∀ r, prepared = some r → Prepared calls i r
  | .deciding prepared current =>
    (∀ r, prepared = some r → Prepared calls i r) ∧ ∀ r, current = some r → Sourced calls consumerId log (calls.key i) r
  | .writing current state =>
    current = none ∧ Prepared calls i state ∨
      ∃ r, current = some r ∧ r.consumerId = calls.consumer i ∧ Sourced calls consumerId log (calls.key i) r ∧
        (state = r ∧ r.state = .masked ∨ state = withStatus r .demasked ∧ (calls.request i).payload = r.maskedText)
  | .releasing answer | .done answer =>
    ∀ out, answer = .ok out → out.operation = .demask → Returned calls consumerId log i out

/-- The creation of a record is its source. -/
theorem Prepared.sourced (h : Prepared calls i r) :
    Sourced calls consumerId (log ++ [⟨i, none, .ok r⟩]) (calls.key i) r := by
  intro hr
  have hconsumer : calls.consumer i = consumerId := h.consumerId_eq.symm.trans hr
  refine ⟨i, r, List.mem_append_right _ (List.mem_singleton_self _), rfl, hconsumer, ?_, rfl, rfl⟩
  rw [← hconsumer]
  exact h

theorem Returned.mono {out : ProcessOutcome} (h : Returned calls consumerId log i out) (hlog : log <+: log') :
    Returned calls consumerId log' i out := by
  obtain ⟨before, after, current, state, rfl, h⟩ := h
  obtain ⟨rest, rfl⟩ := hlog
  exact ⟨before, after ++ rest, current, state, by simp, h⟩

theorem PhaseSourced.mono (h : PhaseSourced calls consumerId log i phase) (hlog : log <+: log') :
    PhaseSourced calls consumerId log' i phase := by
  cases phase with
  | idle | preparing => trivial
  | waiting prepared | holding prepared => exact h
  | deciding prepared current => exact ⟨h.1, fun r hr => (h.2 r hr).mono hlog⟩
  | writing current state =>
    rcases h with h | ⟨r, hcurrent, hconsumer, hsourced, hstate⟩
    · exact Or.inl h
    · exact Or.inr ⟨r, hcurrent, hconsumer, hsourced.mono hlog, hstate⟩
  | releasing answer | done answer => exact fun out hout hdemask => (h out hout hdemask).mono hlog

/-- Every record of the consumer in the store was created by one of its calls. -/
def StoreSourced (calls : Calls ι) (consumerId : Str) (log : List (Event ι)) (store : InMemoryRestorationStore codec) :
    Prop :=
  ∀ k p r, store.data.get? k = some p → codec.decode k p.2 = .ok r → Sourced calls consumerId log k r

structure SystemSourced (calls : Calls ι) (consumerId : Str) (s : System codec ι) : Prop where
  store : StoreSourced calls consumerId s.log s.store
  phase : ∀ i, PhaseSourced calls consumerId s.log i (s.phase i)

theorem StoreSourced.purges {store store' : InMemoryRestorationStore codec} {t : Time}
    (h : StoreSourced calls consumerId log store) (hpurges : Purges t store store') :
    StoreSourced calls consumerId log store' :=
  fun k p r hget hdecode => h k p r (hpurges.back hget) hdecode

theorem StoreSourced.mono {store : InMemoryRestorationStore codec} (h : StoreSourced calls consumerId log store)
    (hlog : log <+: log') : StoreSourced calls consumerId log' store :=
  fun k p r hget hdecode => (h k p r hget hdecode).mono hlog

theorem StoreSourced.put {store : InMemoryRestorationStore codec} {state : RestorationState} {t : Time}
    (h : StoreSourced calls consumerId log store)
    (hstate : Sourced calls consumerId log k { state with payloadId := k }) :
    StoreSourced calls consumerId log (store.put k state t) := by
  intro j p r hget hdecode
  rcases get?_of_put hget with ⟨rfl, htoken⟩ | hget
  · rw [htoken, codec.decode_encode] at hdecode
    obtain rfl := Except.ok.inj hdecode
    exact hstate
  · exact h j p r hget hdecode

/-- A record that is read has a source. -/
theorem StoreSourced.recordAt {store : InMemoryRestorationStore codec} {t : Time} {current : Option RestorationState}
    (h : StoreSourced calls consumerId log store) (hread : store.recordAt k t = .ok current) :
    ∀ r, current = some r → Sourced calls consumerId log k r := by
  rintro r rfl
  obtain ⟨expires, token, hget, -, hdecode⟩ := recordAt_eq_some hread
  exact h k _ r hget hdecode

variable [DecidableEq ι]

/-- A step of the call `i`: its own phase changes, and the log may grow. -/
theorem SystemSourced.update (h : SystemSourced calls consumerId s) (hphases : s'.phase = Function.update s.phase i phase)
    (hlog : s.log <+: s'.log) (hstore : StoreSourced calls consumerId s'.log s'.store)
    (hphase : PhaseSourced calls consumerId s'.log i phase) : SystemSourced calls consumerId s' where
  store := hstore
  phase j := by
    rw [hphases]
    by_cases hj : j = i
    · subst hj
      rw [Function.update_self]
      exact hphase
    · rw [Function.update_of_ne hj]
      exact (h.phase j).mono hlog

theorem SystemSourced.step {readings : List Time} (h : SystemSourced calls consumerId s)
    (hstep : Step calls s readings s') : SystemSourced calls consumerId s' := by
  have hsame : s.log <+: s.log := List.prefix_refl _
  cases hstep with
  | @reject i hi hempty =>
    exact h.update rfl hsame h.store (by rintro out ⟨⟩)
  | @lookup i now found store hi hne hget =>
    have hpurges := purges_get s.store (calls.key i) now
    rw [hget] at hpurges
    refine h.update rfl hsame (h.store.purges hpurges) ?_
    split
    · rintro r ⟨⟩
    · trivial
  | @lookupFails i now e store hi hne hget =>
    have hpurges := purges_get s.store (calls.key i) now
    rw [hget] at hpurges
    exact h.update rfl hsame (h.store.purges hpurges) (by rintro out ⟨⟩)
  | @prepare i state hi hprepare =>
    refine h.update rfl hsame h.store ?_
    rintro r ⟨⟩
    exact prepareMask_spec calls.digests hprepare
  | @prepareFails i e hi hprepare => exact h.update rfl hsame h.store (by rintro out ⟨⟩)
  | @acquire i prepared hi hfree =>
    have hphase := h.phase i
    rw [hi] at hphase
    exact h.update rfl hsame h.store hphase
  | @read i prepared evictAt readAt current store hi hle hread =>
    have hphase := h.phase i
    rw [hi] at hphase
    have hpurges := purges_transitionRead s.store (calls.key i) hle
    have hcurrent : (s.store.evictExpired evictAt).recordAt (calls.key i) readAt = .ok current := by
      rw [← (get_spec _ _ _).1, ← transitionRead_eq, hread]
    rw [hread] at hpurges
    refine h.update rfl hsame (h.store.purges hpurges) ⟨hphase, ?_⟩
    exact (h.store.purges (purges_evict s.store evictAt)).recordAt hcurrent
  | @readFails i prepared evictAt readAt e store hi hle hread =>
    have hpurges := purges_transitionRead s.store (calls.key i) hle
    rw [hread] at hpurges
    exact h.update rfl hsame (h.store.purges hpurges) (by rintro out ⟨⟩)
  | @decide i prepared current state hi hdecide =>
    have hphase := h.phase i
    rw [hi] at hphase
    refine h.update rfl hsame h.store ?_
    rcases transition_cases hdecide with ⟨hnone, hnew | hnew⟩ | ⟨record, hcurrent, hconsumer, hstate⟩
    · exact Or.inl ⟨hnone, hphase.1 state hnew⟩
    · exact Or.inl ⟨hnone, prepareMask_spec calls.digests hnew⟩
    · refine Or.inr ⟨record, hcurrent, hconsumer, hphase.2 record hcurrent, ?_⟩
      exact hstate.imp id fun hdemasked => ⟨hdemasked.1, hdemasked.2.1⟩
  | @refuse i prepared current e hi hdecide =>
    exact h.update rfl (List.prefix_append _ _) (h.store.mono (List.prefix_append _ _)) (by rintro out ⟨⟩)
  | @write i current state writeAt store hi hwrite =>
    have hphase := h.phase i
    rw [hi] at hphase
    have hlog : s.log <+: s.log ++ [⟨i, current, .ok state⟩] := List.prefix_append _ _
    have hput : StoreSourced calls consumerId (s.log ++ [⟨i, current, .ok state⟩]) s.store → Sourced calls consumerId
        (s.log ++ [⟨i, current, .ok state⟩]) (calls.key i) state →
        StoreSourced calls consumerId (s.log ++ [⟨i, current, .ok state⟩]) store := by
      intro hstore hstate
      rw [transitionWrite_ok hwrite]
      exact hstore.put (hstate.of_texts rfl rfl rfl)
    rcases hphase with ⟨rfl, hprepared⟩ | ⟨r, rfl, hconsumer, hsourced, ⟨rfl, hmasked⟩ | ⟨rfl, hpayload⟩⟩
    · refine h.update rfl hlog (hput (h.store.mono hlog) hprepared.sourced) fun out hout hdemask => ?_
      have hdemasked := demasked_of_outcome hout hdemask
      rw [hprepared.masked] at hdemasked
      cases hdemasked
    · refine h.update rfl hlog (hput (h.store.mono hlog) (hsourced.mono hlog)) fun out hout hdemask => ?_
      have hdemasked := demasked_of_outcome hout hdemask
      rw [hmasked] at hdemasked
      cases hdemasked
    · refine h.update rfl hlog (hput (h.store.mono hlog) ((hsourced.mono hlog).of_texts rfl rfl rfl))
        fun out hout _ => ⟨s.log, [], r, _, rfl, hconsumer, hsourced, ?_, hpayload.symm⟩
      exact congrArg ProcessOutcome.result (Except.ok.inj hout)
  | @writeFails i current state writeAt e store hi hwrite =>
    have hkept : store = s.store := by
      have h' := transitionWrite_error (congrArg Prod.fst hwrite)
      rw [hwrite] at h'
      exact h'
    refine h.update rfl hsame ?_ (by rintro out ⟨⟩)
    show StoreSourced calls consumerId s.log store
    rw [hkept]
    exact h.store
  | @release i answer hi =>
    have hphase := h.phase i
    rw [hi] at hphase
    exact h.update rfl hsame h.store hphase

/-- What any number of steps preserves. -/
theorem SystemSourced.steps (h : SystemSourced calls consumerId s)
    (hsteps : Relation.ReflTransGen (fun s s' => ∃ readings, Step calls s readings s') s s') :
    SystemSourced calls consumerId s' := by
  induction hsteps with
  | refl => exact h
  | tail _ hstep ih =>
    obtain ⟨readings, hstep⟩ := hstep
    exact ih.step hstep

/-- Keys differ unless the ids are the same or SHA-256 has a collision. And every original text that a call of the
    consumer gets back was sent before, by a call of the same consumer on the same id, which created the record with the
    mask that is now presented. The records that the store had at the start belong to other consumers or to none. -/
theorem consumer_isolation (calls : Calls ι) (consumerId : Str) (store : InMemoryRestorationStore codec)
    (others : ∀ k p r, store.data.get? k = some p → codec.decode k p.2 = .ok r → r.consumerId ≠ consumerId)
    (collisionFree : Set.InjOn calls.digests.sha256
      {source | ∃ i, keySource (calls.consumer i) (calls.request i).payloadId = source}) :
    (∀ c p c' p', stateKey calls.digests c p = stateKey calls.digests c' p' →
        (c = c' ∧ p = p') ∨ keySource c p ≠ keySource c' p' ∧
          calls.digests.sha256 (keySource c p) = calls.digests.sha256 (keySource c' p')) ∧
      ∀ s, Relation.ReflTransGen (fun s s' => ∃ readings, Step calls s readings s') (System.start ι store) s →
        ∀ i out, s.phase i = .done (.ok out) → out.operation = .demask → calls.consumer i = consumerId →
          ∃ before after current state j record,
            s.log = before ++ ⟨i, some current, .ok state⟩ :: after ∧ ⟨j, none, .ok record⟩ ∈ before ∧
            calls.consumer j = consumerId ∧ (calls.request j).payloadId = (calls.request i).payloadId ∧
            (calls.request j).payload = out.result ∧ record.originalText = out.result ∧
            record.maskedText = (calls.request i).payload := by
  constructor
  · intro c p c' p' hkey
    by_cases hsha : calls.digests.sha256 (keySource c p) = calls.digests.sha256 (keySource c' p') →
        keySource c p = keySource c' p'
    · exact Or.inl (stateKey_inj calls.digests hkey hsha)
    · obtain ⟨hsame, hne⟩ := Classical.not_imp.mp hsha
      exact Or.inr ⟨hne, hsame⟩
  · intro s hsteps i out hdone hdemask hconsumer
    have hstart : SystemSourced calls consumerId (System.start ι store) :=
      ⟨fun k p r hget hdecode hr => absurd hr (others k p r hget hdecode), fun _ => trivial⟩
    have hphase := (hstart.steps hsteps).phase i
    rw [hdone] at hphase
    obtain ⟨before, after, current, state, hlog, hcurrent, hsourced, horiginal, hmask⟩ := hphase out rfl hdemask
    obtain ⟨j, record, hcreated⟩ := hsourced (hcurrent.trans hconsumer)
    have hids := stateKey_inj calls.digests hcreated.key fun hsha => collisionFree ⟨j, rfl⟩ ⟨i, rfl⟩ hsha
    have hresult : record.originalText = out.result := hcreated.originalText.symm.trans horiginal
    exact ⟨before, after, current, state, j, record, hlog, hcreated.event, hcreated.consumer, hids.2,
      hcreated.prepared.originalText.symm.trans hresult, hresult, hcreated.maskedText.symm.trans hmask⟩

end

/-- The two calls in them: the second presents the mask of the first. -/
def exchange : Calls Bool := { exampleCalls with around := fun _ => emailOnly }

/-- The record that the first one creates. -/
def exchanged : RestorationState :=
  ⟨exchange.key false, "a@b.ru".toList, "a@b.ru".toList, "*@*.**".toList, [("*@*.**".toList, "a@b.ru".toList)], 1,
    ["EMAIL".toList], .masked, ⟨0⟩, none, "default".toList⟩

def exchangeStore : InMemoryRestorationStore Codec.plain := (new Codec.plain 60 10).put (exchange.key false) exchanged 0

theorem exchange_prepare : exchange.prepare false = .ok exchanged := by decide +kernel

/-- When the entry of the record expires. -/
def exchangeExpires : Time := 0 + (60 : Int)

theorem exchange_live : exchangeStore.data.get? (exchange.key true) = some (exchangeExpires, Codec.plain.encode exchanged) ∧
    1 < exchangeExpires := by
  constructor
  · exact get?_put_self
  · decide +kernel

/-- The record that the second one prepares, when it has found none. -/
def raced : RestorationState :=
  { exchanged with
    originalHash := "*@*.**".toList
    originalText := "*@*.**".toList
    mappings := [("*@*.**".toList, "*@*.**".toList)] }

theorem exchange_prepare_raced : exchange.prepare true = .ok raced := by decide +kernel

/-- Both find no record and prepare one. The first creates its own, and the second presents the mask of that. -/
theorem exchange_runs : ∃ s, Relation.ReflTransGen
    (fun s s' => ∃ readings, Calm exchange (exchange.key true) s readings ∧ Step exchange s readings s')
    (System.start Bool (new Codec.plain 60 10)) s ∧
      s.phase true = .done (outcomeFromState (some (withStatus exchanged .demasked))) := by
  obtain ⟨hget, hlive⟩ := exchange_live
  have hread : (exchangeStore.transitionRead (exchange.key true) 1 1).1 = .ok (some exchanged) := by
    have hdecode : Codec.plain.decode (exchange.key true) (Codec.plain.encode exchanged) = .ok exchanged :=
      Codec.decode_encode_self Codec.plain rfl
    rw [transitionRead_recordAt _ _ (le_refl 1), recordAt_of_live hget hlive, hdecode]
    rfl
  have hkept : (exchangeStore.transitionRead (exchange.key true) 1 1).2.data.get? (exchange.key true) =
      some (exchangeExpires, Codec.plain.encode exchanged) :=
    (purges_transitionRead exchangeStore (exchange.key true) (le_refl 1)).live hget hlive
  have hcontains : ∀ store : InMemoryRestorationStore Codec.plain, ∀ entry, store.data.get? (exchange.key true) = some entry →
      store.data.contains (exchange.key true) = true := by
    intro store entry hentry
    rw [OrderedDict.contains, hentry]
    rfl
  have hnew : (new Codec.plain 60 10).get (exchange.key false) 0 = (.ok none, new Codec.plain 60 10) := rfl
  have hnew' : (new Codec.plain 60 10).transitionRead (exchange.key false) 0 0 = (.ok none, new Codec.plain 60 10) := rfl
  have hwrite : (new Codec.plain 60 10).transitionWrite (exchange.key false) (some exchanged) 0 =
      (.ok (some exchanged), exchangeStore) := rfl
  have hwrite' := transitionWrite_of_contains (t := 1) (withStatus exchanged .demasked) (hcontains _ _ hkept)
  have hdecide : exchange.decide true (some raced) (some exchanged) = .ok (withStatus exchanged .demasked) := by
    decide +kernel
  -- Nothing is stored before the first write, and what is stored then outlives the run.
  have hempty : ∀ (s : System Codec.plain Bool) readings, s.store = new Codec.plain 60 10 →
      Calm exchange (exchange.key true) s readings := by
    intro s readings hstore
    refine ⟨fun entry hentry => ?_, fun _ _ _ _ _ => ?_⟩
    · rw [hstore] at hentry
      cases hentry
    · rw [hstore]
      rfl
  have hstored : ∀ (s : System Codec.plain Bool) readings entry, s.store.data.get? (exchange.key true) = some entry →
      (∀ t ∈ readings, t < entry.1) → Calm exchange (exchange.key true) s readings := by
    intro s readings entry hentry hreadings
    refine ⟨fun entry' hentry' => ?_, fun _ _ _ _ _ => ?_⟩
    · obtain rfl := Option.some.inj (hentry.symm.trans hentry')
      exact hreadings
    · rw [isFull, hcontains _ _ hentry]
      rfl
  have first : Relation.ReflTransGen
      (fun s s' => ∃ readings, Calm exchange (exchange.key true) s readings ∧ Step exchange s readings s')
      (System.start Bool (new Codec.plain 60 10)) _ :=
    (((((((Relation.ReflTransGen.refl.tail ⟨_, hempty _ _ rfl, .lookup (i := false) rfl (by decide) hnew⟩).tail
      ⟨_, hempty _ _ rfl, .lookup (i := true) rfl (by decide) hnew⟩).tail
      ⟨_, hempty _ _ rfl, .prepare (i := false) rfl exchange_prepare⟩).tail
      ⟨_, hempty _ _ rfl, .prepare (i := true) rfl exchange_prepare_raced⟩).tail
      ⟨_, hempty _ _ rfl, .acquire (i := false) rfl rfl⟩).tail
      ⟨_, hempty _ _ rfl, .read (i := false) rfl (le_refl 0) hnew'⟩).tail
      ⟨_, hempty _ _ rfl, .decide (i := false) rfl rfl⟩).tail
      ⟨_, hempty _ _ rfl, .write (i := false) rfl hwrite⟩
  have second := (((((first.tail ⟨_, hstored _ [] _ hget (by rintro _ ⟨⟩), .release (i := false) rfl⟩).tail
      ⟨_, hstored _ [] _ hget (by rintro _ ⟨⟩), .acquire (i := true) rfl rfl⟩).tail
      ⟨_, hstored _ [1, 1] _ hget (by simpa using hlive), .read (i := true) rfl (le_refl 1) (Prod.ext hread rfl)⟩).tail
      ⟨_, hstored _ [] _ hkept (by rintro _ ⟨⟩), .decide (i := true) rfl hdecide⟩).tail
      ⟨_, hstored _ [] _ hkept (by rintro _ ⟨⟩), .write (i := true) rfl hwrite'⟩)
  exact ⟨_, second.tail ⟨_, hstored _ [] _ get?_put_self (by rintro _ ⟨⟩), .release (i := true) rfl⟩, rfl⟩

/-- The second call gets the original back that the first one has sent. -/
theorem consumer_isolation_exchange :
    ∃ s : System Codec.plain Bool,
      s.phase true = .done (.ok ⟨"a@b.ru".toList, .demask, 1, ["EMAIL".toList]⟩) ∧
        ∃ before after current state j record,
          s.log = before ++ ⟨true, some current, .ok state⟩ :: after ∧ ⟨j, none, .ok record⟩ ∈ before ∧
          exchange.consumer j = "default".toList ∧ (exchange.request j).payloadId = "1".toList ∧
          (exchange.request j).payload = "a@b.ru".toList ∧ record.originalText = "a@b.ru".toList ∧
          record.maskedText = "*@*.**".toList := by
  obtain ⟨s, hcalm, hdone⟩ := exchange_runs
  have hsteps : Relation.ReflTransGen (fun s s' => ∃ readings, Step exchange s readings s')
      (System.start Bool (new Codec.plain 60 10)) s := by
    refine Relation.ReflTransGen.mono ?_ _ _ hcalm
    rintro _ _ ⟨readings, -, hstep⟩
    exact ⟨readings, hstep⟩
  have others : ∀ k p r, (new Codec.plain 60 10).data.get? k = some p → Codec.plain.decode k p.2 = .ok r →
      r.consumerId ≠ "default".toList := fun k p r hget => by cases hget
  have collisionFree : Set.InjOn exchange.digests.sha256
      {source | ∃ i, keySource (exchange.consumer i) (exchange.request i).payloadId = source} := by
    rintro _ ⟨i, rfl⟩ _ ⟨j, rfl⟩ -
    rfl
  obtain ⟨-, hruns⟩ := consumer_isolation exchange "default".toList (new Codec.plain 60 10) others collisionFree
  exact ⟨s, hdone, hruns s hsteps true _ hdone rfl rfl⟩

end PiiProxy.ProcessService
