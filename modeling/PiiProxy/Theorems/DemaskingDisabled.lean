import PiiProxy.Theorems.StateTable

/-! # Originals under a policy that forbids demasking

The permission is asked for when a record becomes DEMASKED, and not when the mask of a DEMASKED record comes again. A
consumer that may no longer demask still gets the originals of the records that were demasked before. -/

namespace PiiProxy.ProcessService
open InMemoryRestorationStore

section
variable {codec : Codec} {digests : Digests} {store : InMemoryRestorationStore codec} {call : Call}

/-- The call presents the mask of a record of its consumer and id that is DEMASKED and lives. -/
def PresentsDemasked (digests : Digests) (call : Call) (store : InMemoryRestorationStore codec) : Prop :=
  call.request.payload ≠ [] ∧ call.request.payloadId ≠ [] ∧
    ∃ record, store.recordAt (call.key digests) call.at_.read = .ok (some record) ∧
      record.consumerId = call.request.policy.consumerId ∧ record.state = .demasked ∧
      call.request.payload = record.maskedText

/-- The call returns the original text of a record. -/
def Demasks (digests : Digests) (call : Call) (store : InMemoryRestorationStore codec) : Prop :=
  ∃ out, (call.run digests store).1 = .ok out ∧ out.operation = .demask

/-- A call that may not demask returns an original exactly if the record was demasked before. -/
theorem demasks_iff (ordered : call.at_.Ordered) (disabled : call.request.policy.demaskingEnabled = false) :
    Demasks digests call store ↔ PresentsDemasked digests call store := by
  constructor
  · rintro ⟨out, hout, hdemask⟩
    obtain ⟨hpayload, hid, current, prepared, state, hcurrent, hprepared, htransition, hstate, -⟩ :=
      process_ok ordered hout
    have hmasked : ∀ s, prepared = some s → s.state = .masked := fun s hs =>
      (prepareMask_spec digests (hprepared s hs)).masked
    obtain ⟨record, rfl, hconsumer, hmask, henabled⟩ :=
      demask_of_transition htransition hmasked (demasked_of_outcome hstate hdemask)
    refine ⟨hpayload, hid, record, hcurrent, hconsumer, ?_, hmask⟩
    cases hstatus : record.state with
    | masked =>
      rw [disabled] at henabled
      cases henabled hstatus
    | demasked => rfl
  · rintro ⟨hpayload, hid, record, hrecord, hconsumer, hstatus, hmask⟩
    have htransition : transition digests call.around (some record) call.request.payload
        (Request.key digests call.request) call.request.policy none = .ok record := by
      simp [transition, hconsumer, hstatus, hmask]
    have hrun : (process digests call.around call.request call.at_ store).1 = outcomeFromState (some record) := by
      rw [process_of_record ordered hpayload hid hrecord, htransition]
    refine ⟨outcome record.originalText .demask record, hrun.trans ?_, rfl⟩
    simp [outcomeFromState, hstatus]

/-- In a run, the calls that may not demask return no originals exactly if none of them presents the mask of a record
    that was demasked before. -/
theorem never_demasks_iff (codec : Codec) (digests : Digests) (ttlSeconds maxEntries : Int) (calls : List Call)
    (ordered : ∀ call ∈ calls, call.at_.Ordered) :
    (∀ before call after, calls = before ++ call :: after → call.request.policy.demaskingEnabled = false →
        ¬ Demasks digests call (runCalls digests (new codec ttlSeconds maxEntries) before)) ↔
      ∀ before call after, calls = before ++ call :: after → call.request.policy.demaskingEnabled = false →
        ¬ PresentsDemasked digests call (runCalls digests (new codec ttlSeconds maxEntries) before) := by
  refine forall₃_congr fun before call after => forall₂_congr fun hcalls disabled => not_congr ?_
  exact demasks_iff (ordered call (hcalls ▸ List.mem_append_right before List.mem_cons_self)) disabled

end

/-- The same call after the policy has lost the permission. -/
def disabledCall (payload : String) (time : Time) : Call :=
  { exampleCall payload time with
    request := ⟨payload.toList, "1".toList, { ConsumerPolicy.default with demaskingEnabled := false }⟩ }

theorem never_demasks_iff_masked :
    (∀ before call after, [exampleCall "a@b.ru" 0, disabledCall "*@*.**" 1] = before ++ call :: after →
        call.request.policy.demaskingEnabled = false →
        ¬ Demasks Digests.plain call (runCalls Digests.plain (new Codec.plain 60 10) before)) ↔
      ∀ before call after, [exampleCall "a@b.ru" 0, disabledCall "*@*.**" 1] = before ++ call :: after →
        call.request.policy.demaskingEnabled = false →
        ¬ PresentsDemasked Digests.plain call (runCalls Digests.plain (new Codec.plain 60 10) before) := by
  refine never_demasks_iff Codec.plain Digests.plain 60 10 _ fun call hcall => ?_
  rcases List.mem_cons.mp hcall with rfl | hcall
  · exact ordered_exampleCall _ _
  · obtain rfl := List.mem_singleton.mp hcall
    exact ordered_exampleCall "*@*.**" 1

/-- A record is created and demasked, the policy loses the permission, and the mask still gives the original. -/
theorem original_released_while_disabled :
    (disabledCall "*@*.**" 2).request.policy.demaskingEnabled = false ∧
      ((disabledCall "*@*.**" 2).run Digests.plain (runCalls Digests.plain (new Codec.plain 60 10)
        [exampleCall "a@b.ru" 0, exampleCall "*@*.**" 1])).1 =
          .ok ⟨"a@b.ru".toList, .demask, 1, ["EMAIL".toList]⟩ := by decide +kernel

end PiiProxy.ProcessService
