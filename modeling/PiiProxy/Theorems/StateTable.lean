import PiiProxy.Processing.Lifecycle

/-! # Every call is answered by the table

Once a call has created a record, the calls of the same consumer on the same id are answered by the table of the
README, and nothing of the record changes but its status, for as long as the record lives. -/

namespace PiiProxy.ProcessService
open InMemoryRestorationStore

/-- A call of `process` over the in-memory store. -/
structure Call where
  around : Surroundings
  request : Request
  at_ : Readings

section
variable {codec : Codec} (digests : Digests)

def Call.key (call : Call) : Str := Request.key digests call.request

def Call.run (call : Call) (store : InMemoryRestorationStore codec) :
    Except PIIProxyError ProcessOutcome × InMemoryRestorationStore codec :=
  process digests call.around call.request call.at_ store

/-- The store after one call after the other. -/
def runCalls (store : InMemoryRestorationStore codec) (calls : List Call) : InMemoryRestorationStore codec :=
  calls.foldl (fun store call => (call.run digests store).2) store

/-- A call of the same consumer on the same id. -/
def Call.SameId (call creator : Call) : Prop :=
  call.request.policy.consumerId = creator.request.policy.consumerId ∧
    call.request.payloadId = creator.request.payloadId

instance (call creator : Call) : Decidable (call.SameId creator) := inferInstanceAs (Decidable (_ ∧ _))

/-- The status of a record after the calls that followed its creator. -/
def statusAfter (creator : Call) (mask : Str) (later : List Call) : RestorationStateStatus :=
  later.foldl (fun status call =>
    if call.SameId creator then
      (table creator.request.payload mask status call.request.payload).elim status fun row => row.2.2
    else status) .masked

/-- A row of the table as an answer about `record`. -/
def Answers (record : RestorationState) (row : Option (Operation × Str × RestorationStateStatus))
    (answer : Except PIIProxyError ProcessOutcome) : Prop :=
  match row with
  | some (operation, result, _) => answer = .ok (outcome result operation record)
  | none => ∃ message, answer = .error (.invalidPayload message)

/-- No two texts of the calls have the same digest. -/
structure CollisionFree (calls : List Call) : Prop where
  hashPayload : Set.InjOn digests.hashPayload {payload | ∃ call ∈ calls, call.request.payload = payload}
  sha256 : Set.InjOn digests.sha256
    {source | ∃ call ∈ calls, keySource call.request.policy.consumerId call.request.payloadId = source}

variable {digests} {store : InMemoryRestorationStore codec} {creator call : Call} {calls : List Call}
  {record : RestorationState} {status : RestorationStateStatus}

theorem CollisionFree.sameId_of_key (h : CollisionFree digests calls) (hcall : call ∈ calls) (hcreator : creator ∈ calls)
    (hkey : call.key digests = creator.key digests) : call.SameId creator :=
  stateKey_inj digests hkey fun hsha => h.sha256 ⟨call, hcall, rfl⟩ ⟨creator, hcreator, rfl⟩ hsha

theorem key_of_sameId (h : call.SameId creator) : call.key digests = creator.key digests := by
  rw [Call.key, Request.key, h.1, h.2]
  rfl

theorem Call.run_created (ordered : creator.at_.Ordered) {out : ProcessOutcome}
    (new : store.recordAt (creator.key digests) creator.at_.read = .ok none)
    (created : (creator.run digests store).1 = .ok out) :
    ∃ record, prepareMask digests creator.around creator.request.payload (creator.key digests) creator.request.policy =
        .ok record ∧
      out = outcome record.maskedText .mask record ∧
      (creator.run digests store).2.data.get? (creator.key digests) =
        some (creator.at_.write + store.ttlSeconds, codec.encode record) :=
  process_created ordered new created

/-- The store holds the record of the creator's key, in some status. -/
def Holds (digests : Digests) (creator : Call) (record : RestorationState) (status : RestorationStateStatus)
    (store : InMemoryRestorationStore codec) : Prop :=
  ∃ expires, store.data.get? (creator.key digests) = some (expires, codec.encode (withStatus record status))

/-- Every entry of the creator's key is unexpired when the call reads it. -/
def Unexpired (digests : Digests) (creator call : Call) (store : InMemoryRestorationStore codec) : Prop :=
  ∀ entry, store.data.get? (creator.key digests) = some entry → call.at_.read < entry.1

/-- A call on the id is answered by the table, and the record gets the status of the table. -/
theorem Holds.run_same (hholds : Holds digests creator record status store)
    (hrecord : PreparedBy digests creator.request.payload (creator.key digests) creator.request.policy.consumerId record)
    (hsame : call.SameId creator) (ordered : call.at_.Ordered) (hlive : Unexpired digests creator call store)
    (henabled : call.request.policy.demaskingEnabled = true) (hpayload : creator.request.payload ≠ [])
    (hid : creator.request.payloadId ≠ [])
    (hhash : digests.hashPayload call.request.payload = digests.hashPayload creator.request.payload →
      call.request.payload = creator.request.payload) :
    Answers record (table creator.request.payload record.maskedText status call.request.payload)
        (call.run digests store).1 ∧
      Holds digests creator record
        ((table creator.request.payload record.maskedText status call.request.payload).elim status fun row => row.2.2)
        (call.run digests store).2 := by
  obtain ⟨expires, hget⟩ := hholds
  have hlt := hlive _ hget
  have hkey : Request.key digests call.request = creator.key digests := key_of_sameId hsame
  have hmask := hrecord.maskedText_ne_nil hpayload
  by_cases hempty : call.request.payload = []
  · -- The empty text is neither the original nor the mask, and the call does not come to the store.
    have hrow : table creator.request.payload record.maskedText status call.request.payload = none := by
      rw [hempty]
      cases status <;> simp [table, hpayload.symm, hmask.symm]
    have hrun : call.run digests store = (.error (.invalidPayload "payload and payload_id are required"), store) := by
      rw [Call.run, process, if_pos (Or.inl hempty)]
    rw [hrow, hrun]
    exact ⟨⟨_, rfl⟩, expires, hget⟩
  · have hid' : (withStatus record status).payloadId = creator.key digests := hrecord.payloadId_eq
    have hat : store.recordAt (Request.key digests call.request) call.at_.read = .ok (some (withStatus record status)) := by
      rw [hkey, recordAt_of_live hget hlt, codec.decode_encode_self hid']
      rfl
    have hconsumer : (withStatus record status).consumerId = call.request.policy.consumerId :=
      hrecord.consumerId_eq.trans hsame.1.symm
    have hhash' : digests.hashPayload call.request.payload = (withStatus record status).originalHash ↔
        call.request.payload = (withStatus record status).originalText := by
      rw [originalHash_withStatus, originalText_withStatus, hrecord.originalHash, hrecord.originalText]
      exact ⟨hhash, fun h => congrArg _ h⟩
    have hrun : process digests call.around call.request call.at_ store = _ :=
      process_of_record ordered hempty (hsame.2 ▸ hid) hat
    rw [transition_eq_table hconsumer henabled hhash', originalText_withStatus,
      hrecord.originalText, maskedText_withStatus, state_withStatus] at hrun
    rw [Call.run, hrun]
    cases hrow : table creator.request.payload record.maskedText status call.request.payload with
    | none => exact ⟨⟨_, rfl⟩, expires, (purges_storeAtRead ordered call.request store).live hget hlt⟩
    | some row =>
      obtain ⟨operation, result, status'⟩ := row
      refine ⟨?_, call.at_.write + (storeAtRead digests call.request call.at_ store).ttlSeconds, ?_⟩
      · have hout : table (withStatus record status).originalText (withStatus record status).maskedText
            (withStatus record status).state call.request.payload = some (operation, result, status') := by
          rw [originalText_withStatus, hrecord.originalText]
          exact hrow
        exact outcomeFromState_of_table hout
      · rw [← hkey]
        exact get?_put_self

/-- A call on another key leaves the record alone. -/
theorem Holds.run_other (hholds : Holds digests creator record status store) (hkey : call.key digests ≠ creator.key digests)
    (ordered : call.at_.Ordered) (hlive : Unexpired digests creator call store) :
    Holds digests creator record status (call.run digests store).2 := by
  obtain ⟨expires, hget⟩ := hholds
  exact ⟨expires, process_other ordered hkey.symm hget (hlive _ hget)⟩

theorem statusAfter_snoc (creator call : Call) (mask : Str) (later : List Call) :
    statusAfter creator mask (later ++ [call]) =
      if call.SameId creator then
        (table creator.request.payload mask (statusAfter creator mask later) call.request.payload).elim
          (statusAfter creator mask later) fun row => row.2.2
      else statusAfter creator mask later := by
  rw [statusAfter, List.foldl_append]
  rfl

theorem statusAfter_demasked {mask : Str} {before after : List Call} (h : statusAfter creator mask before = .demasked) :
    statusAfter creator mask (before ++ after) = .demasked := by
  induction after using List.reverseRecOn with
  | nil => rwa [List.append_nil]
  | append_singleton after call ih =>
    rw [← List.append_assoc, statusAfter_snoc, ih]
    split
    · by_cases hpayload : call.request.payload = mask
      · simp [table, hpayload]
      · simp [table, hpayload]
    · rfl

/-- From the call that creates a record on, as long as the record has not expired and the consumer may demask: the
    record keeps everything but its status, the status follows the table and never goes back, and the next call on the
    id is answered by the table. -/
theorem process_follows_table (store : InMemoryRestorationStore codec) (creator : Call) (later : List Call)
    {out : ProcessOutcome} (new : store.recordAt (creator.key digests) creator.at_.read = .ok none)
    (created : (creator.run digests store).1 = .ok out) (ordered : ∀ call ∈ creator :: later, call.at_.Ordered)
    (collisionFree : CollisionFree digests (creator :: later))
    (unexpired : ∀ before call after, later = before ++ call :: after →
      Unexpired digests creator call (runCalls digests (creator.run digests store).2 before))
    (enabled : ∀ call ∈ later, call.SameId creator → call.request.policy.demaskingEnabled = true) :
    ∃ record, PreparedBy digests creator.request.payload (creator.key digests) creator.request.policy.consumerId record ∧
      out = outcome record.maskedText .mask record ∧
      ∀ before after, later = before ++ after →
        Holds digests creator record (statusAfter creator record.maskedText before)
            (runCalls digests (creator.run digests store).2 before) ∧
          (statusAfter creator record.maskedText before = .demasked →
            statusAfter creator record.maskedText later = .demasked) ∧
          ∀ call rest, after = call :: rest → call.SameId creator →
            Answers record (table creator.request.payload record.maskedText
                (statusAfter creator record.maskedText before) call.request.payload)
              (call.run digests (runCalls digests (creator.run digests store).2 before)).1 := by
  have hcreator := ordered creator List.mem_cons_self
  obtain ⟨record, hprepared, hout, hget⟩ := creator.run_created hcreator new created
  obtain ⟨hpayload, hid, -⟩ := process_ok hcreator created
  have hrecord := prepareMask_spec digests hprepared
  have hsame : ∀ call ∈ later, call.SameId creator → ∀ status (store' : InMemoryRestorationStore codec),
      Holds digests creator record status store' → Unexpired digests creator call store' →
      Answers record (table creator.request.payload record.maskedText status call.request.payload)
          (call.run digests store').1 ∧
        Holds digests creator record
          ((table creator.request.payload record.maskedText status call.request.payload).elim status fun row => row.2.2)
          (call.run digests store').2 := by
    intro call hcall hsame status store' hholds hlive
    refine hholds.run_same hrecord hsame (ordered call (List.mem_cons_of_mem _ hcall)) hlive (enabled call hcall hsame)
      hpayload hid fun hhash => ?_
    exact collisionFree.hashPayload ⟨call, List.mem_cons_of_mem _ hcall, rfl⟩ ⟨creator, List.mem_cons_self, rfl⟩ hhash
  have hholds : ∀ before after, later = before ++ after →
      Holds digests creator record (statusAfter creator record.maskedText before)
        (runCalls digests (creator.run digests store).2 before) := by
    intro before
    induction before using List.reverseRecOn with
    | nil =>
      have hmasked : withStatus record .masked = record := by
        rw [← hrecord.masked]
        rfl
      exact fun after _ => ⟨_, hget.trans (by rw [statusAfter, List.foldl_nil, hmasked])⟩
    | append_singleton before call ih =>
      intro after hlater
      rw [List.append_assoc, List.singleton_append] at hlater
      have hbefore := ih _ hlater
      have hlive := unexpired before call after hlater
      have hcall : call ∈ later := hlater ▸ List.mem_append_right before List.mem_cons_self
      rw [statusAfter_snoc, runCalls, List.foldl_append]
      split
      · rename_i hid'
        exact (hsame call hcall hid' _ _ hbefore hlive).2
      · rename_i hother
        refine hbefore.run_other (fun hkey => hother ?_) (ordered call (List.mem_cons_of_mem _ hcall)) hlive
        exact collisionFree.sameId_of_key (List.mem_cons_of_mem _ hcall) List.mem_cons_self hkey
  refine ⟨record, hrecord, hout, fun before after hlater => ⟨hholds before after hlater, fun hdemasked => ?_, ?_⟩⟩
  · rw [hlater]
    exact statusAfter_demasked hdemasked
  · rintro call rest rfl hid'
    have hcall : call ∈ later := hlater ▸ List.mem_append_right before List.mem_cons_self
    exact (hsame call hcall hid' _ _ (hholds before _ hlater) (unexpired before call rest hlater)).1

end

/-- A call of the default consumer on the id `1`. -/
def exampleCall (payload : String) (time : Time) : Call where
  around := Surroundings.plain
  request := ⟨payload.toList, "1".toList, ConsumerPolicy.default⟩
  at_ := ⟨time, time, time, time⟩

theorem ordered_exampleCall (payload : String) (time : Time) : (exampleCall payload time).at_.Ordered :=
  ⟨le_refl _, le_refl _, le_refl _⟩

theorem collisionFree_exampleCalls (calls : List (String × Time)) :
    CollisionFree Digests.plain (calls.map fun c => exampleCall c.1 c.2) where
  hashPayload _ _ _ _ h := h
  sha256 := by
    rintro _ ⟨call, hcall, rfl⟩ _ ⟨call', hcall', rfl⟩ -
    obtain ⟨c, -, rfl⟩ := List.mem_map.mp hcall
    obtain ⟨c', -, rfl⟩ := List.mem_map.mp hcall'
    rfl

theorem exampleCall_creates : ((exampleCall "a@b.ru" 0).run Digests.plain (new Codec.plain 60 10)).1 =
    .ok ⟨"*@*.**".toList, .mask, 1, ["EMAIL".toList]⟩ := by decide +kernel

/-- The mask of a new record gives the original back. -/
theorem process_follows_table_demask :
    ((exampleCall "*@*.**" 1).run Digests.plain
        ((exampleCall "a@b.ru" 0).run Digests.plain (new Codec.plain 60 10)).2).1 =
      .ok ⟨"a@b.ru".toList, .demask, 1, ["EMAIL".toList]⟩ := by
  have hordered := ordered_exampleCall "a@b.ru" 0
  have hunexpired : ∀ before call after, [exampleCall "*@*.**" 1] = before ++ call :: after →
      Unexpired Digests.plain (exampleCall "a@b.ru" 0) call (runCalls Digests.plain
        ((exampleCall "a@b.ru" 0).run Digests.plain (new Codec.plain 60 10)).2 before) := by
    intro before call after h
    obtain ⟨rfl, rfl, -⟩ : before = [] ∧ exampleCall "*@*.**" 1 = call ∧ after = [] := by
      cases before with
      | nil => simpa using h
      | cons c before => simp at h
    have hnew : (new Codec.plain 60 10).recordAt ((exampleCall "a@b.ru" 0).key Digests.plain)
        (exampleCall "a@b.ru" 0).at_.read = .ok none := recordAt_new _ _ _ _ _
    obtain ⟨record, -, -, hget⟩ := Call.run_created hordered hnew exampleCall_creates
    intro entry hentry
    rw [runCalls, List.foldl_nil, hget] at hentry
    obtain rfl := Option.some.inj hentry
    show (1 : Rat) < 0 + (60 : Int)
    decide +kernel
  obtain ⟨record, -, hout, hrun⟩ := process_follows_table (new Codec.plain 60 10) (exampleCall "a@b.ru" 0)
    [exampleCall "*@*.**" 1] (recordAt_new _ _ _ _ _) exampleCall_creates (by
      intro call hcall
      rcases List.mem_cons.mp hcall with rfl | hcall
      · exact hordered
      · obtain rfl := List.mem_singleton.mp hcall
        exact ordered_exampleCall _ _)
    (collisionFree_exampleCalls [("a@b.ru", 0), ("*@*.**", 1)]) hunexpired (by
      intro call hcall _
      obtain rfl := List.mem_singleton.mp hcall
      rfl)
  obtain ⟨-, -, hanswer⟩ := hrun [] [exampleCall "*@*.**" 1] rfl
  have hmask : record.maskedText = "*@*.**".toList := (congrArg ProcessOutcome.result hout).symm
  have hcount : record.entityCount = 1 := (congrArg ProcessOutcome.entityCount hout).symm
  have htypes : record.detectedTypes = ["EMAIL".toList] := (congrArg ProcessOutcome.detectedTypes hout).symm
  have h := hanswer _ [] rfl ⟨rfl, rfl⟩
  rw [hmask] at h
  have hdemask : _ = Except.ok (outcome "a@b.ru".toList .demask record) := h
  rw [outcome, hcount, htypes] at hdemask
  exact hdemask

end PiiProxy.ProcessService
