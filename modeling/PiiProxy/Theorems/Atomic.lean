import PiiProxy.Processing.Atomic

/-! # What the answers have in common

The calls as a machine of atomic steps, in any order, with any record forgotten at any time. Every answer goes back to one
MASK answer of a call on the same key, of which the requests and the answers say everything: no record is needed to state
it. -/

namespace PiiProxy.ProcessService

section
variable {ι : Type} {callers : Callers ι} {s s' : Atomic ι} {i j : ι} {k : Str} {record : RestorationState}
  {out : ProcessOutcome}

/-! ### The callback -/

/-- A callback that finds a record: the original again, or the mask. -/
theorem transition_found {digests : Digests} {around : Surroundings} {payload payloadId : Str} {policy : ConsumerPolicy}
    {prepared : Option RestorationState} {state : RestorationState}
    (h : transition digests around (some record) payload payloadId policy prepared = .ok state) :
    digests.hashPayload payload = record.originalHash ∧ record.state = .masked ∧ state = record ∨
      payload = record.maskedText ∧ state = withStatus record .demasked ∧
        (record.state = .masked → policy.demaskingEnabled = true) := by
  by_cases hhash : digests.hashPayload payload = record.originalHash
  · rcases transition_cases h with ⟨hnone, -⟩ | ⟨record', hcurrent, -, ⟨hstate, hmasked⟩ | hdemasked⟩
    · cases hnone
    · obtain rfl := Option.some.inj hcurrent
      exact Or.inl ⟨hhash, hmasked, hstate⟩
    · obtain rfl := Option.some.inj hcurrent
      obtain ⟨hstate, hpayload, henabled⟩ := hdemasked
      exact Or.inr ⟨hpayload, hstate, henabled⟩
  · refine Or.inr ?_
    unfold transition at h
    dsimp only at h
    split at h
    · cases h
    · split at h
      · split at h
        · rename_i hpayload
          unfold demaskState at h
          split at h
          · cases h
          · rename_i henabled
            exact ⟨hpayload, (Except.ok.inj h).symm, fun _ => by simpa using henabled⟩
        · cases h
      · rename_i hstatus
        split at h
        · rename_i hpayload
          have hdemasked : record.state = .demasked := by
            cases hstate : record.state with
            | masked => exact absurd hstate hstatus
            | demasked => rfl
          refine ⟨hpayload, ?_, fun hmasked => absurd hmasked hstatus⟩
          rw [← hdemasked, withStatus_self]
          exact (Except.ok.inj h).symm
        · cases h

/-- What a call answers with a record that it leaves. -/
theorem outcomeFromState_withStatus (record : RestorationState) (status : RestorationStateStatus) :
    outcomeFromState (some (withStatus record status)) = .ok (match status with
      | .masked => outcome record.maskedText .mask record
      | .demasked => outcome record.originalText .demask record) := by
  cases status <;> rfl

/-- The record that a call leaves has the id of its key. -/
theorem Callers.Decides.payloadId {current : Option RestorationState} {state : RestorationState}
    (h : callers.Decides i current (.ok state))
    (hid : ∀ record, current = some record → record.payloadId = callers.key i) : state.payloadId = callers.key i := by
  obtain ⟨n, prepared, hbrings, hdecide⟩ := h
  cases current with
  | none =>
    cases prepared with
    | none => exact (prepareMask_spec callers.digests hdecide).payloadId_eq
    | some record =>
      obtain rfl := Except.ok.inj hdecide
      obtain ⟨m, hprepare⟩ := hbrings record rfl
      exact (prepareMask_spec callers.digests hprepare).payloadId_eq
  | some record =>
    rcases transition_found hdecide with ⟨-, -, rfl⟩ | ⟨-, rfl, -⟩
    · exact hid state rfl
    · exact hid record rfl

/-! ### The invariant -/

/-- A call on the key has prepared the record, and been answered with its mask. -/
def Created (callers : Callers ι) (s : Atomic ι) (k : Str) (record : RestorationState) : Prop :=
  ∃ j n, callers.key j = k ∧ callers.prepare j n = .ok record ∧
    s.answers j = some (.ok (outcome record.maskedText .mask record))

/-- A call on the key that may demask has been answered with the original. -/
def Permitted (callers : Callers ι) (s : Atomic ι) (k : Str) (record : RestorationState) : Prop :=
  ∃ d, callers.key d = k ∧ (callers.request d).policy.demaskingEnabled = true ∧
    s.answers d = some (.ok (outcome record.originalText .demask record))

/-- Every record and every answer is about a record that was created. -/
structure Grounded (callers : Callers ι) (s : Atomic ι) : Prop where
  records : ∀ k state, s.records k = some state → ∃ record status, state = withStatus record status ∧
    Created callers s k record ∧ (status = .demasked → Permitted callers s k record)
  answers : ∀ i out, s.answers i = some (.ok out) → ∃ record, Created callers s (callers.key i) record ∧
    (callers.digests.hashPayload (callers.request i).payload = record.originalHash ∧
        out = outcome record.maskedText .mask record ∨
      (callers.request i).payload = record.maskedText ∧ out = outcome record.originalText .demask record ∧
        Permitted callers s (callers.key i) record)

theorem Grounded.start (callers : Callers ι) : Grounded callers (Atomic.start ι) where
  records k state h := by cases h
  answers i out h := by cases h

/-- Answers stay. -/
def Extends (s s' : Atomic ι) : Prop := ∀ i answer, s.answers i = some answer → s'.answers i = some answer

theorem Created.mono (h : Created callers s k record) (hext : Extends s s') : Created callers s' k record := by
  obtain ⟨j, n, hkey, hprepare, hanswer⟩ := h
  exact ⟨j, n, hkey, hprepare, hext j _ hanswer⟩

theorem Permitted.mono (h : Permitted callers s k record) (hext : Extends s s') : Permitted callers s' k record := by
  obtain ⟨d, hkey, henabled, hanswer⟩ := h
  exact ⟨d, hkey, henabled, hext d _ hanswer⟩

variable [DecidableEq ι]

theorem extends_reply (hi : s.answers i = none) (answer : Answer) : Extends s (s.reply i answer) := by
  intro j answer' hj
  rw [Atomic.answers_reply]
  by_cases hji : j = i
  · subst hji
    rw [hi] at hj
    cases hj
  · rw [Function.update_of_ne hji]
    exact hj

/-- An answer more, and the record of one key. -/
theorem Grounded.extend (h : Grounded callers s) {answer : Answer} {value : Option RestorationState}
    (hs' : s' = (s.setRecord k value).reply i answer) (hi : s.answers i = none)
    (hvalue : ∀ state, value = some state → ∃ record status, state = withStatus record status ∧
      Created callers s' k record ∧ (status = .demasked → Permitted callers s' k record))
    (hanswer : ∀ out, answer = .ok out → ∃ record, Created callers s' (callers.key i) record ∧
      (callers.digests.hashPayload (callers.request i).payload = record.originalHash ∧
          out = outcome record.maskedText .mask record ∨
        (callers.request i).payload = record.maskedText ∧ out = outcome record.originalText .demask record ∧
          Permitted callers s' (callers.key i) record)) :
    Grounded callers s' := by
  have hext : Extends s s' := by
    rw [hs']
    exact extends_reply (show (s.setRecord k value).answers i = none from hi) answer
  refine ⟨fun k' state hstate => ?_, fun j out hj => ?_⟩
  · rw [hs', Atomic.records_reply, Atomic.records_setRecord] at hstate
    by_cases hk : k' = k
    · subst hk
      rw [Function.update_self] at hstate
      exact hvalue state hstate
    · rw [Function.update_of_ne hk] at hstate
      obtain ⟨record, status, hrecord, hcreated, hpermitted⟩ := h.records k' state hstate
      exact ⟨record, status, hrecord, hcreated.mono hext, fun hdemasked => (hpermitted hdemasked).mono hext⟩
  · rw [hs', Atomic.answers_reply] at hj
    by_cases hji : j = i
    · subst hji
      rw [Function.update_self] at hj
      exact hanswer out (Option.some.inj hj)
    · rw [Function.update_of_ne hji] at hj
      obtain ⟨record, hcreated, hout⟩ := h.answers j out hj
      refine ⟨record, hcreated.mono hext, ?_⟩
      rcases hout with hmask | ⟨hpayload, hdemask, hpermitted⟩
      · exact Or.inl hmask
      · exact Or.inr ⟨hpayload, hdemask, hpermitted.mono hext⟩

/-- An error tells of no record. -/
theorem Grounded.error (h : Grounded callers s) {e : PIIProxyError} (hi : s.answers i = none) :
    Grounded callers (s.reply i (.error e)) := by
  have hself : s.reply i (.error e) = (s.setRecord (callers.key i) (s.records (callers.key i))).reply i (.error e) := by
    rw [Atomic.setRecord, Function.update_eq_self]
  refine h.extend hself hi ?_ ?_
  · intro state hstate
    obtain ⟨record, status, hrecord, hcreated, hpermitted⟩ := h.records _ state hstate
    have hext := extends_reply hi (.error e)
    exact ⟨record, status, hrecord, hcreated.mono hext, fun hdemasked => (hpermitted hdemasked).mono hext⟩
  · intro out hout
    cases hout

theorem Grounded.commit (h : Grounded callers s) {state : RestorationState} (hi : s.answers i = none)
    (hdecides : callers.Decides i (s.records (callers.key i)) (.ok state)) :
    Grounded callers ((s.setRecord (callers.key i) (some state)).reply i (outcomeFromState (some state))) := by
  -- What the record says of a status is what the answer says of it.
  suffices hcase : ∃ record status, state = withStatus record status ∧
      Created callers ((s.setRecord (callers.key i) (some state)).reply i (outcomeFromState (some state)))
        (callers.key i) record ∧
      (status = .masked ∧ callers.digests.hashPayload (callers.request i).payload = record.originalHash ∨
        status = .demasked ∧ (callers.request i).payload = record.maskedText ∧
          Permitted callers ((s.setRecord (callers.key i) (some state)).reply i (outcomeFromState (some state)))
            (callers.key i) record) by
    obtain ⟨record, status, hstate, hcreated, hstatus⟩ := hcase
    refine h.extend rfl hi ?_ ?_
    · intro state' hstate'
      obtain rfl := Option.some.inj hstate'
      refine ⟨record, status, hstate, hcreated, fun hdemasked => ?_⟩
      rcases hstatus with ⟨hmasked, -⟩ | ⟨-, -, hpermitted⟩
      · rw [hmasked] at hdemasked
        cases hdemasked
      · exact hpermitted
    · intro out hout
      rw [hstate, outcomeFromState_withStatus] at hout
      refine ⟨record, hcreated, ?_⟩
      rcases hstatus with ⟨hmasked, hhash⟩ | ⟨hdemasked, hpayload, hpermitted⟩
      · rw [hmasked] at hout
        exact Or.inl ⟨hhash, (Except.ok.inj hout).symm⟩
      · rw [hdemasked] at hout
        exact Or.inr ⟨hpayload, (Except.ok.inj hout).symm, hpermitted⟩
  have hext : Extends s ((s.setRecord (callers.key i) (some state)).reply i (outcomeFromState (some state))) :=
    extends_reply (show (s.setRecord (callers.key i) (some state)).answers i = none from hi) _
  have hself : ((s.setRecord (callers.key i) (some state)).reply i (outcomeFromState (some state))).answers i =
      some (outcomeFromState (some state)) := Function.update_self _ _ _
  obtain ⟨n, prepared, hbrings, hdecide⟩ := hdecides
  cases hcurrent : s.records (callers.key i) with
  | none =>
    -- The call creates the record.
    have hprepare : ∃ m, callers.prepare i m = .ok state := by
      rw [hcurrent] at hdecide
      cases prepared with
      | none => exact ⟨n, hdecide⟩
      | some record =>
        obtain rfl := Except.ok.inj hdecide
        exact hbrings record rfl
    obtain ⟨m, hprepare⟩ := hprepare
    have hspec := prepareMask_spec callers.digests hprepare
    have hmasked : state = withStatus state .masked := by rw [← hspec.masked, withStatus_self]
    refine ⟨state, .masked, hmasked, ⟨i, m, rfl, hprepare, ?_⟩, Or.inl ⟨rfl, hspec.originalHash.symm⟩⟩
    rw [hself, hmasked, outcomeFromState_withStatus]
    rfl
  | some current =>
    rw [hcurrent] at hdecide
    obtain ⟨record, status, rfl, hcreated, hpermitted⟩ := h.records _ current hcurrent
    rcases transition_found hdecide with ⟨hhash, hmasked, rfl⟩ | ⟨hpayload, rfl, henabled⟩
    · exact ⟨record, status, rfl, hcreated.mono hext, Or.inl ⟨hmasked, hhash⟩⟩
    · refine ⟨record, .demasked, rfl, hcreated.mono hext, Or.inr ⟨rfl, hpayload, ?_⟩⟩
      cases status with
      | masked => exact ⟨i, rfl, henabled rfl, hself⟩
      | demasked => exact (hpermitted rfl).mono hext

theorem Grounded.step (h : Grounded callers s) (hstep : Atomic.Step callers s s') : Grounded callers s' := by
  cases hstep with
  | @commit i state hi hnamed hdecides => exact h.commit hi hdecides
  | @refuse i e hi hnamed hdecides => exact h.error hi
  | @fail i e hi hfails => exact h.error hi
  | forget k =>
    refine ⟨fun k' state hstate => ?_, h.answers⟩
    rw [Atomic.records_setRecord] at hstate
    by_cases hk : k' = k
    · subst hk
      rw [Function.update_self] at hstate
      cases hstate
    · rw [Function.update_of_ne hk] at hstate
      exact h.records k' state hstate

theorem Grounded.steps (h : Grounded callers s) (hsteps : Relation.ReflTransGen (Atomic.Step callers) s s') :
    Grounded callers s' := by
  induction hsteps with
  | refl => exact h
  | tail _ hstep ih => exact ih.step hstep

/-! ### Requests and answers alone -/

/-- A call on the key that was answered MASK, and what the answers are that go back to it. -/
structure GoesBack (callers : Callers ι) (answers : ι → Option Answer) (i : ι) (out : ProcessOutcome) (j : ι)
    (mask : ProcessOutcome) : Prop where
  key : callers.key j = callers.key i
  consumer : callers.consumer j = callers.consumer i
  masked : mask.operation = .mask
  answered : answers j = some (.ok mask)
  result : callers.digests.hashPayload (callers.request i).payload =
      callers.digests.hashPayload (callers.request j).payload ∧ out = mask ∨
    (callers.request i).payload = mask.result ∧
      out = { mask with result := (callers.request j).payload, operation := .demask } ∧
      ∃ d, callers.key d = callers.key i ∧ (callers.request d).policy.demaskingEnabled = true ∧
        answers d = some (.ok out)

omit [DecidableEq ι] in
theorem Grounded.goesBack (h : Grounded callers s) (hi : s.answers i = some (.ok out)) :
    ∃ j mask, GoesBack callers s.answers i out j mask := by
  obtain ⟨record, ⟨j, n, hkey, hprepare, hanswer⟩, hout⟩ := h.answers i out hi
  have hspec := prepareMask_spec callers.digests hprepare
  refine ⟨j, outcome record.maskedText .mask record, hkey, consumerId_of_stateKey callers.digests hkey, rfl, hanswer, ?_⟩
  rcases hout with ⟨hhash, rfl⟩ | ⟨hpayload, rfl, hpermitted⟩
  · exact Or.inl ⟨hhash.trans hspec.originalHash, rfl⟩
  · refine Or.inr ⟨hpayload, ?_, hpermitted⟩
    rw [← hspec.originalText]
    rfl

end

end PiiProxy.ProcessService
