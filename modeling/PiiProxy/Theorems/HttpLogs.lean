import PiiProxy.Api.Logs
import PiiProxy.Theorems.HttpService
import PiiProxy.Theorems.MemoryAtomic

/-! # What the application logs about a request

Every record becomes one line, which can be read back, and no text of it comes from a payload, a stored record or an
exception. -/

namespace PiiProxy

namespace ProcessService

/-- The detected types of an answer are names of types: they go back to entities that a call has found. -/
theorem detectedTypes_of_answer {codec : Codec} {ι : Type} [DecidableEq ι] {calls : Calls ι} {ttlSeconds maxEntries : Int}
    {s : System codec ι} (hsteps : Relation.ReflTransGen (fun s s' => ∃ readings, Step calls s readings s')
      (System.start ι (.new codec ttlSeconds maxEntries)) s)
    {i : ι} {out : ProcessOutcome} (hi : s.phase i = .done (.ok out)) :
    ∀ t ∈ out.detectedTypes, ∃ type : PIIType, t = type.value := by
  obtain ⟨a, hsteps', hlinked⟩ := linked_step.run (Linked.start calls ttlSeconds maxEntries) hsteps
  have hgrounded := (Grounded.start calls.callers).steps hsteps'
  have hanswer : a.answers i = some (.ok out) := by
    rw [hlinked.answers i, hi]
    rfl
  obtain ⟨record, ⟨j, n, -, hprepare, -⟩, hout⟩ := hgrounded.answers i out hanswer
  have htypes : ∀ t ∈ record.detectedTypes, ∃ type : PIIType, t = type.value := by
    obtain ⟨candidates, masking, -, -, rfl⟩ := prepareMask_ok _ hprepare
    intro t ht
    change t ∈ detectedTypes (protectedEntities _ candidates) at ht
    rw [detectedTypes, List.mem_insertionSort, List.mem_dedup, List.mem_map] at ht
    obtain ⟨e, -, rfl⟩ := ht
    exact ⟨e.type, rfl⟩
  rcases hout with ⟨-, rfl⟩ | ⟨-, rfl, -⟩
  · exact htypes
  · exact htypes

end ProcessService

namespace Http
open Api Logging JsonText

/-- The texts that the program itself brings into its logs. -/
def fixedTexts : List Str := [
  "INFO".toList,
  "WARNING".toList,
  "ERROR".toList,
  "pii_security_proxy.http".toList,
  "pii_security_proxy.api.process".toList,
  "pii_security_proxy.api.errors".toList,
  "pii_security_proxy.api.middleware".toList,
  "process_completed".toList,
  "request_error".toList,
  "processing_error".toList,
  "unexpected_error".toList,
  "http_request_completed".toList,
  "rate_limited global".toList,
  "MASK".toList,
  "DEMASK".toList,
  "CONSUMER_NOT_ALLOWED".toList,
  "INVALID_PAYLOAD".toList,
  "PROCESSING_ERROR".toList,
  "SERVICE_OVERLOADED".toList,
  "INTERNAL_ERROR".toList]

section
variable {codec : Codec} {ι : Type} {service : Service ι} {i : ι} {shown : Shown}

/-- A text that may be logged about a request. -/
inductive Loggable (service : Service ι) (i : ι) (shown : Shown) : Str → Prop
  | fixed {t : Str} (h : fixedTexts.contains t = true) : Loggable service i shown t
  | timestamp : Loggable service i shown shown.timestamp
  | exceptionType : Loggable service i shown shown.exceptionType
  | requestId : Loggable service i shown (service.requestId i)
  | method : Loggable service i shown (service.request i).endpoint.method
  | path : Loggable service i shown (service.request i).endpoint.label
  | detected (type : PIIType) : Loggable service i shown type.value
  /-- A consumer that has a policy. -/
  | consumer {policy : ConsumerPolicy} (h : service.provider.getPolicy (service.consumerId i) = .ok policy) :
    Loggable service i shown (service.consumerId i)
  | payloadIdHash {payload payloadId : Str} (h : (service.request i).endpoint = .process (some (payload, payloadId))) :
    Loggable service i shown (hashIdentifier service.digests payloadId)

/-- A value of a record: a number, or texts that may be logged. -/
def ValueLoggable (service : Service ι) (i : ι) (shown : Shown) (v : Value) : Prop :=
  (∃ literal, v = .number literal ∧ isNumeral literal = true) ∨
    (∃ t, v = .str t ∧ Loggable service i shown t) ∨
    ∃ ts : List Str, v = .arr (ts.map .str) ∧ ∀ t ∈ ts, Loggable service i shown t

theorem ValueLoggable.sound {v : Value} (h : ValueLoggable service i shown v) : Sound v := by
  rcases h with ⟨literal, rfl, hnumeral⟩ | ⟨t, rfl, -⟩ | ⟨ts, rfl, -⟩
  · exact .number hnumeral
  · exact .str t
  · refine .arr fun v hv => ?_
    obtain ⟨t, -, rfl⟩ := List.mem_map.mp hv
    exact .str t

theorem valueLoggable_count (n : Nat) : ValueLoggable service i shown (count n) :=
  Or.inl ⟨_, rfl, isNumeral_toDigits n⟩

theorem valueLoggable_duration : ValueLoggable service i shown (.number shown.durationMs) :=
  Or.inl ⟨_, rfl, shown.isNumeral_durationMs⟩

theorem valueLoggable_str {t : Str} (h : Loggable service i shown t) : ValueLoggable service i shown (.str t) :=
  Or.inr (Or.inl ⟨t, rfl, h⟩)

theorem valueLoggable_fixed {t : Str} (h : fixedTexts.contains t = true) : ValueLoggable service i shown (.str t) :=
  valueLoggable_str (.fixed h)

/-- A record of which everything may be logged. -/
structure RecordLoggable (service : Service ι) (i : ι) (shown : Shown) (r : LogRecord) : Prop where
  levelname : Loggable service i shown r.levelname
  name : Loggable service i shown r.name
  message : Loggable service i shown r.message
  extra : ∀ e ∈ r.extra.entries, ValueLoggable service i shown e.2
  excType : r.excType = none

/-- Its line, under a context that has the request id or none. -/
theorem RecordLoggable.line {r : LogRecord} (h : RecordLoggable service i shown r) {contextId : Option Str}
    (hcontext : ∀ id, contextId = some id → id = service.requestId i) :
    (∀ c ∈ format shown.timestamp contextId r, ' ' ≤ c) ∧
      ∃ fields, loads (format shown.timestamp contextId r) = some (.obj fields) ∧
        ∀ f ∈ fields, f.1 ∈ lineKeys ∧ ValueLoggable service i shown f.2 := by
  obtain ⟨hline, hread⟩ := @format_spec shown.timestamp contextId r fun e he => (h.extra e he).sound
  refine ⟨hline, _, hread, fun f hf => ?_⟩
  have horigin := payload_origin f hf
  refine ⟨horigin.key, ?_⟩
  cases horigin with
  | timestamp => exact valueLoggable_str .timestamp
  | level => exact valueLoggable_str h.levelname
  | logger => exact valueLoggable_str h.name
  | message => exact valueLoggable_str h.message
  | @context id hid =>
    obtain rfl := hcontext id hid
    exact valueLoggable_str .requestId
  | given hfield hget => exact h.extra _ (OrderedDict.get?_eq_some.mp hget)
  | exception hname =>
    rw [h.excType] at hname
    cases hname

theorem errorType_fixed (e : Raised) : fixedTexts.contains e.errorType.toList = true := by
  rcases e with err | (message | message | ⟨message, retryAfter⟩ | message)
  · exact (rfl : fixedTexts.contains "CONSUMER_NOT_ALLOWED".toList = true)
  · exact (rfl : fixedTexts.contains "INVALID_PAYLOAD".toList = true)
  · exact (rfl : fixedTexts.contains "PROCESSING_ERROR".toList = true)
  · exact (rfl : fixedTexts.contains "SERVICE_OVERLOADED".toList = true)
  · exact (rfl : fixedTexts.contains "INTERNAL_ERROR".toList = true)

/-- A call has been made under a policy. -/
theorem policy_of_call {request : Request} (h : service.call? i = some request) :
    ∃ policy, service.provider.getPolicy (service.consumerId i) = .ok policy := by
  unfold Service.call? at h
  split at h
  · split at h
    · rename_i body policy hbody hpolicy
      exact ⟨policy, hpolicy⟩
    · cases h
  · cases h

theorem loggable_processCompleted {out : ProcessOutcome} {request : Request} (hrequest : service.call? i = some request)
    (htypes : ∀ t ∈ out.detectedTypes, ∃ type : PIIType, t = type.value) :
    RecordLoggable service i shown (processCompleted service i shown out) := by
  obtain ⟨-, hendpoint, -⟩ := call?_eq_some hrequest
  obtain ⟨-, hid, -⟩ := consumer_calls hrequest
  obtain ⟨policy, hpolicy⟩ := policy_of_call hrequest
  refine ⟨.fixed rfl, .fixed rfl, .fixed rfl, OrderedDict.forall_ofList fun e he => ?_, rfl⟩
  simp only [List.mem_cons, List.not_mem_nil, or_false] at he
  rcases he with rfl | rfl | rfl | rfl | rfl | rfl | rfl
  · exact valueLoggable_fixed rfl
  · cases out.operation
    · exact valueLoggable_fixed rfl
    · exact valueLoggable_fixed rfl
  · rw [hid]
    exact valueLoggable_str (.payloadIdHash hendpoint)
  · exact valueLoggable_str (.consumer hpolicy)
  · refine Or.inr (Or.inr ⟨out.detectedTypes, rfl, fun t ht => ?_⟩)
    obtain ⟨type, rfl⟩ := htypes t ht
    exact .detected type
  · exact valueLoggable_count _
  · exact valueLoggable_duration

theorem loggable_handledError (e : Raised) {levelname event : Str} (hlevel : fixedTexts.contains levelname = true)
    (hevent : fixedTexts.contains event = true) :
    RecordLoggable service i shown (handledError service i levelname event e) := by
  refine ⟨.fixed hlevel, .fixed rfl, .fixed hevent, OrderedDict.forall_ofList fun e' he => ?_, rfl⟩
  simp only [List.mem_cons, List.not_mem_nil, or_false] at he
  rcases he with rfl | rfl | rfl | rfl
  · exact valueLoggable_fixed hevent
  · exact valueLoggable_str .requestId
  · exact valueLoggable_fixed (errorType_fixed e)
  · exact valueLoggable_count _

theorem loggable_unexpectedError : RecordLoggable service i shown (unexpectedError service i shown) := by
  refine ⟨.fixed rfl, .fixed rfl, .fixed rfl, OrderedDict.forall_ofList fun e he => ?_, rfl⟩
  simp only [List.mem_cons, List.not_mem_nil, or_false] at he
  rcases he with rfl | rfl | rfl | rfl | rfl
  · exact valueLoggable_fixed rfl
  · exact valueLoggable_str .requestId
  · exact valueLoggable_fixed rfl
  · exact valueLoggable_str .exceptionType
  · exact valueLoggable_count _

theorem loggable_httpRequestCompleted (outcome : Outcome) :
    RecordLoggable service i shown (httpRequestCompleted service i shown outcome) := by
  refine ⟨.fixed rfl, .fixed rfl, .fixed rfl, OrderedDict.forall_ofList fun e he => ?_, rfl⟩
  simp only [List.mem_cons, List.not_mem_nil, or_false] at he
  rcases he with rfl | rfl | rfl | rfl | rfl | rfl
  · exact valueLoggable_fixed rfl
  · exact valueLoggable_str .requestId
  · exact valueLoggable_str .method
  · exact valueLoggable_str .path
  · exact valueLoggable_count _
  · exact valueLoggable_duration

theorem loggable_rateLimited : RecordLoggable service i shown rateLimited :=
  ⟨.fixed rfl, .fixed rfl, .fixed rfl, fun _ he => (List.not_mem_nil he).elim, rfl⟩

theorem loggable_innerRecords {outcome : Outcome}
    (hprocessed : ∀ out prepared, outcome = .processed out prepared → (∃ request, service.call? i = some request) ∧
      ∀ t ∈ out.detectedTypes, ∃ type : PIIType, t = type.value) :
    ∀ r ∈ innerRecords service i shown outcome, RecordLoggable service i shown r := by
  intro r hr
  unfold innerRecords at hr
  split at hr
  · rename_i out prepared
    obtain ⟨⟨request, hrequest⟩, htypes⟩ := hprocessed out prepared rfl
    rw [List.mem_singleton.mp hr]
    exact loggable_processCompleted hrequest htypes
  · rw [List.mem_singleton.mp hr]
    exact loggable_handledError _ rfl rfl
  · split at hr
    · cases hr
    · rw [List.mem_singleton.mp hr]
      exact loggable_handledError _ rfl rfl
  · cases hr

theorem loggable_outerRecords {outcome : Outcome} :
    ∀ r ∈ outerRecords service i shown outcome, RecordLoggable service i shown r := by
  intro r hr
  unfold outerRecords at hr
  split at hr
  · split at hr
    · rw [List.mem_singleton.mp hr]
      exact loggable_unexpectedError
    · cases hr
  · cases hr

variable [DecidableEq ι]

/-- Every record about a request becomes one line of JSON, whose fields are numbers and texts that may be logged: none is
    of a payload, a mask, a stored record or an exception. -/
theorem log_lines_clean (service : Service ι) (clock : Time) (limiter : SlidingWindowRateLimiter)
    (ttlSeconds maxEntries : Int) (s : System codec ι)
    (hsteps : Relation.ReflTransGen (Step service)
      (System.start ι clock limiter (InMemoryRestorationStore.new codec ttlSeconds maxEntries)) s)
    (i : ι) (shown : Shown) (contextId : Option Str) (r : LogRecord)
    (hlogged : (contextId, r) ∈ service.logged i shown (s.phase i)) :
    (∀ c ∈ format shown.timestamp contextId r, ' ' ≤ c) ∧
      ∃ fields, loads (format shown.timestamp contextId r) = some (.obj fields) ∧
        ∀ f ∈ fields, f.1 ∈ lineKeys ∧ ValueLoggable service i shown f.2 := by
  obtain ⟨hinv, hcore⟩ := (Inv.start service clock limiter rfl).steps hsteps
  have hended := hinv.phase i
  cases hi : s.phase i with
  | arriving | admitted | entered | running | recording =>
    rw [hi] at hlogged
    cases hlogged
  | rejected =>
    rw [hi] at hlogged
    obtain ⟨rfl, rfl⟩ := Prod.mk.inj (List.mem_singleton.mp hlogged)
    exact loggable_rateLimited.line fun id hid => by cases hid
  | answered outcome =>
    rw [hi] at hlogged hended
    have hprocessed : ∀ out prepared, outcome = .processed out prepared → (∃ request, service.call? i = some request) ∧
        ∀ t ∈ out.detectedTypes, ∃ type : PIIType, t = type.value := by
      rintro out prepared rfl
      obtain ⟨request, hrequest, hdone⟩ := Ended.processed hended
      exact ⟨⟨request, hrequest⟩, ProcessService.detectedTypes_of_answer hcore hdone⟩
    rcases List.mem_append.mp hlogged with hinner | houter
    · obtain ⟨r', hr', heq⟩ := List.mem_map.mp hinner
      obtain ⟨rfl, rfl⟩ := Prod.mk.inj heq
      refine RecordLoggable.line ?_ fun id hid => (Option.some.inj hid).symm
      rcases List.mem_append.mp hr' with hmem | hmem
      · exact loggable_innerRecords hprocessed r' hmem
      · rw [List.mem_singleton.mp hmem]
        exact loggable_httpRequestCompleted outcome
    · obtain ⟨r', hr', heq⟩ := List.mem_map.mp houter
      obtain ⟨rfl, rfl⟩ := Prod.mk.inj heq
      exact (loggable_outerRecords r' hr').line fun id hid => by cases hid

end

def exampleShown : Shown := ⟨"2026-01-01T00:00:00+00:00".toList, "1.25".toList, rfl, "ValueError".toList⟩

/-- The end of the second request, which has been sent the original. -/
theorem log_lines_clean_example : ∃ s : System Codec.plain Bool,
    (∃ prepared, s.phase true = .answered (.processed ⟨"a@b.ru".toList, .demask, 1, ["EMAIL".toList]⟩ prepared)) ∧
      ∃ contextId r, r.message = "process_completed".toList ∧
        (∀ c ∈ format exampleShown.timestamp contextId r, ' ' ≤ c) ∧
        ∃ fields, loads (format exampleShown.timestamp contextId r) = some (.obj fields) ∧
          ∀ f ∈ fields, f.1 ∈ lineKeys ∧ ValueLoggable exampleService true exampleShown f.2 := by
  obtain ⟨s, hsteps, prepared, hanswered⟩ := exampleService_answers
  refine ⟨s, ⟨prepared, hanswered⟩, some (exampleService.requestId true), processCompleted exampleService true exampleShown
    ⟨"a@b.ru".toList, .demask, 1, ["EMAIL".toList]⟩, rfl, ?_⟩
  refine log_lines_clean exampleService 0 (.new 2 1) 60 10 s hsteps true exampleShown _ _ ?_
  rw [hanswered]
  exact List.mem_cons_self

end Http

end PiiProxy
