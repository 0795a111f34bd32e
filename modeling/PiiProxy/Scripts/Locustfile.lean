import Mathlib.Logic.Function.Basic
import PiiProxy.Lib.JsonText
import PiiProxy.Scripts.BuildResult

/-! The users of the load test and what they count (`tests/performance/locustfile.py`), and how the runner reads the
    counters (`read_custom_metrics` in `scripts/run_performance.py`). A greenlet gives way only while it waits for a reply:
    what a user does from one reply to its next request is one step. -/

namespace PiiProxy.Locustfile
open JsonText (Value)

/-! ### The counters -/

/-- The keys of `_CUSTOM_METRICS`. -/
inductive Counter where
  | maskRequests | demaskRequests | incompleteRoundtrips
  | http2xx | http429 | http422 | httpOther
  | functionalErrors | transportErrors
  deriving DecidableEq

def Counter.key : Counter → Str
  | .maskRequests => "mask_requests".toList
  | .demaskRequests => "demask_requests".toList
  | .incompleteRoundtrips => "incomplete_roundtrips".toList
  | .http2xx => "http_2xx".toList
  | .http429 => "http_429".toList
  | .http422 => "http_422".toList
  | .httpOther => "http_other".toList
  | .functionalErrors => "functional_errors".toList
  | .transportErrors => "transport_errors".toList

def counters : List Counter :=
  [.maskRequests, .demaskRequests, .incompleteRoundtrips, .http2xx, .http429, .http422, .httpOther, .functionalErrors,
    .transportErrors]

abbrev CustomMetrics := Counter → Int

/-- `_bump` -/
def bump (m : CustomMetrics) (key : Counter) : CustomMetrics := Function.update m key (m key + 1)

def bumpAll (m : CustomMetrics) (keys : List Counter) : CustomMetrics := keys.foldl bump m

/-! ### One request -/

/-- What `response.json()` comes to: a value, a `ValueError`, or another exception. -/
inductive Body where
  | value (v : Value)
  | valueError
  | otherError

structure Response where
  statusCode : Int
  retryAfter : Option Str
  body : Body

inductive Kind where
  | mask | demask
  deriving DecidableEq

/-- `f"{kind}_requests"` -/
def Kind.counter : Kind → Counter
  | .mask => .maskRequests
  | .demask => .demaskRequests

/-- The arguments of `_post`. -/
structure Call where
  payloadId : Str
  payload : Str
  name : Str
  kind : Kind
  /-- The message for a result that is not the expected one. -/
  validator : Option (Str → Option Str) := none
  expectedStatuses : List Int := []
  expectedError : Option Str := none

/-- What Locust is told about a request: nothing, so that the status decides, or a mark, or an exception. -/
inductive Mark where
  | unmarked
  | success
  | failure (message : Str)
  | raised

/-- The counters that a call of `_post` bumps, in order, its result, and its mark. -/
structure Posted where
  bumps : List Counter
  result : Option Str
  mark : Mark

/-- `_parse_json_object`; an exception that is no `ValueError` goes on. -/
def parseJsonObject : Body → Except Unit (Option (List (Str × Value)))
  | .value (.obj fields) => .ok (some fields)
  | .value _ | .valueError => .ok none
  | .otherError => .error ()

/-- The text under a key, if it is one. -/
def textOf (body : List (Str × Value)) (key : String) : Option Str :=
  match body.lookup key.toList with
  | some (.str s) => some s
  | _ => none

/-- `f"http_{status}"`; for other numbers there is no such counter. -/
def statusCounter (status : Int) : Option Counter :=
  if status = 422 then some .http422 else if status = 429 then some .http429 else none

/-- A status that the call expects. -/
def expected (c : Call) (r : Response) : Posted :=
  match statusCounter r.statusCode with
  | none => ⟨[.transportErrors], none, .raised⟩
  | some counter =>
    match c.expectedError with
    | none => ⟨[counter], none, .success⟩
    | some error =>
      match parseJsonObject r.body with
      | .error _ => ⟨[counter, .transportErrors], none, .raised⟩
      | .ok none =>
        ⟨[counter, .functionalErrors], none, .failure "expected status but body is not a JSON object".toList⟩
      | .ok (some body) =>
        if textOf body "error" = some error then ⟨[counter], none, .success⟩
        else ⟨[counter, .functionalErrors], none, .failure "expected status but error code did not match".toList⟩

/-- A status of 200. -/
def accepted (c : Call) (r : Response) : Posted :=
  let answered := [.http2xx, c.kind.counter]
  let failure message := ⟨answered ++ [.functionalErrors], none, .failure message⟩
  match parseJsonObject r.body with
  | .error _ => ⟨answered ++ [.transportErrors], none, .raised⟩
  | .ok none => failure "response is not a JSON object".toList
  | .ok (some body) =>
    match textOf body "result" with
    | none => failure "response does not contain string result".toList
    | some result =>
      match c.validator.bind fun validate => validate result with
      | some message => failure message
      | none => ⟨answered, some result, .unmarked⟩

/-- `_post`, when `self.client.post` comes to a response, or to an exception. -/
def post (c : Call) : Option Response → Posted
  | none => ⟨[.transportErrors], none, .raised⟩
  | some r =>
    if r.statusCode = 429 then
      if r.retryAfter.isNone then ⟨[.http429, .functionalErrors], none, .failure "429 without Retry-After".toList⟩
      else ⟨[.http429], none, .success⟩
    else if c.expectedStatuses.contains r.statusCode then expected c r
    else if r.statusCode ≠ 200 then
      let suffix := match r.retryAfter with
        | none | some [] => []
        | some retryAfter => " retry_after=".toList ++ retryAfter
      ⟨[.httpOther, .functionalErrors], none,
        .failure ("status=".toList ++ RunPerformance.intText r.statusCode ++ suffix)⟩
    else accepted c r

/-! ### The scenarios -/

def original : Str :=
  ("Клиент Иванов Иван Иванович, паспорт 4509 123456, ИНН 7707083893, " ++
    "карта 4111 1111 1111 1111, телефон +7 999 123-45-67, " ++
    "email test@example.com, дата рождения 15.03.1990").toList

def conflictPayload : Str :=
  ("Клиент Петров Пётр Петрович, паспорт 4509 654321, ИНН 500100732259, " ++
    "карта 4111 1111 1111 1111, телефон +7 916 555-12-34, " ++
    "email petr@example.com, дата рождения 20.07.1985").toList

def maskedSentinels : List Str := ["test@example.com", "+7 999 123-45-67", "4111 1111 1111 1111", "7707083893",
  "4509 123456", "Иванов Иван Иванович", "15.03.1990"].map String.toList

/-- `LARGE_PAYLOAD`, of about so many characters. -/
def largePayload (chars : Nat) : Str :=
  ((List.replicate (chars / 6 + 1) "Слово ".toList).flatten.take chars) ++ " test@example.com".toList

def maskValidator (result : Str) : Option Str :=
  if maskedSentinels.any fun sentinel => isIn sentinel result then
    some "mask leaked one or more original PII values".toList
  else none

/-- A validator for one result. -/
def expects (text : Str) (message : String) : Str → Option Str := fun result =>
  if result ≠ text then some message.toList else none

/-- A task of a user: requests, each with what follows its result, and the counters that it bumps itself. -/
inductive Script where
  | done
  | bump (key : Counter) (next : Script)
  | post (call : Call) (next : Option Str → Script)

/-- `_mask` -/
def maskCall (payloadId payload : Str) (name : String := "POST /process [mask]") : Call :=
  { payloadId, payload, name := name.toList, kind := .mask, validator := some maskValidator }

/-- `_demask` -/
def demaskCall (payloadId masked expected : Str) (name : String) : Call :=
  { payloadId, payload := masked, name := name.toList, kind := .demask
    validator := some (expects expected "demask returned a different original") }

section
variable (payloadId : Str)

def scenarioMaskOnly : Script := .post (maskCall payloadId original) fun _ => .done

/-- The second half of a roundtrip. -/
def roundtripDemask (masked : Str) : Script :=
  .post (demaskCall payloadId masked original "POST /process [demask]") fun restored =>
    if restored.isNone then .bump .incompleteRoundtrips .done else .done

def scenarioRoundtrip : Script :=
  .post (maskCall payloadId original) fun masked => masked.elim .done (roundtripDemask payloadId)

def scenarioMaskRetry : Script :=
  .post (maskCall payloadId original "POST /process [retry-mask:first]") fun first => first.elim .done fun first =>
    .post { payloadId, payload := original, name := "POST /process [retry-mask:second]".toList, kind := .mask
            validator := some (expects first "mask retry was not idempotent") } fun _ => .done

def scenarioDemaskRetry : Script :=
  .post (maskCall payloadId original) fun masked => masked.elim .done fun masked =>
    .post (demaskCall payloadId masked original "POST /process [retry-demask:first]") fun _ =>
      .post (demaskCall payloadId masked original "POST /process [retry-demask:second]") fun _ => .done

def scenarioDuplicatePayload : Script :=
  .post (maskCall payloadId original "POST /process [dup:first]") fun first => first.elim .done fun first =>
    .post { payloadId, payload := conflictPayload, name := "POST /process [dup:conflict]".toList, kind := .mask
            expectedStatuses := [422], expectedError := some "INVALID_PAYLOAD".toList } fun _ =>
      .post { payloadId, payload := original, name := "POST /process [dup:remask]".toList, kind := .mask
              validator := some (expects first "duplicate conflict corrupted the mask mapping") } fun second =>
        second.elim .done fun second =>
          .post (demaskCall payloadId second original "POST /process [dup:demask]") fun _ => .done

def scenarioLargePayload (chars : Nat) : Script :=
  .post (maskCall payloadId (largePayload chars) "POST /process [large-mask]") fun masked => masked.elim .done fun masked =>
    .post (demaskCall payloadId masked (largePayload chars) "POST /process [large-demask]") fun _ => .done

end

inductive Scenario where
  | maskOnly | roundtrip | maskRetry | demaskRetry | duplicatePayload | largePayload | mixed
  deriving DecidableEq

def Scenario.name : Scenario → Str
  | .maskOnly => "mask_only".toList
  | .roundtrip => "roundtrip".toList
  | .maskRetry => "mask_retry".toList
  | .demaskRetry => "demask_retry".toList
  | .duplicatePayload => "duplicate_payload".toList
  | .largePayload => "large_payload".toList
  | .mixed => "mixed".toList

/-- What `execute_scenario` may run. -/
def Scenario.tasks (scenario : Scenario) (chars : Nat) (payloadId : Str) : List Script :=
  match scenario with
  | .maskOnly => [scenarioMaskOnly payloadId]
  | .roundtrip => [scenarioRoundtrip payloadId]
  | .maskRetry => [scenarioMaskRetry payloadId]
  | .demaskRetry => [scenarioDemaskRetry payloadId]
  | .duplicatePayload => [scenarioDuplicatePayload payloadId]
  | .largePayload => [scenarioLargePayload payloadId chars]
  | .mixed => [scenarioRoundtrip payloadId, scenarioMaskRetry payloadId, scenarioDemaskRetry payloadId,
      scenarioDuplicatePayload payloadId, scenarioLargePayload payloadId chars]

/-! ### The users -/

/-- What a script bumps before its next request, and what is left of it. -/
def Script.settle : Script → List Counter × Script
  | .bump key next => (key :: next.settle.1, next.settle.2)
  | script => ([], script)

/-- The users' scripts, the counters, and the requests that have come to an end, with what they came to. -/
structure System (ι : Type) where
  scripts : ι → Script
  metrics : CustomMetrics
  posts : List (Call × Option Response)

def System.initial {ι : Type} : System ι := ⟨fun _ => .done, fun _ => 0, []⟩

/-- A user begins a task, under any id, or its request comes to an end. A user that is stopped has no further step. -/
inductive Step {ι : Type} [DecidableEq ι] (scenario : Scenario) (chars : Nat) (s : System ι) : System ι → Prop
  | start (i : ι) (payloadId : Str) (script : Script) :
      s.scripts i = .done → script ∈ scenario.tasks chars payloadId →
        Step scenario chars s { s with scripts := Function.update s.scripts i script }
  | reply (i : ι) (call : Call) (next : Option Str → Script) (response : Option Response) :
      s.scripts i = .post call next →
        Step scenario chars s
          { scripts := Function.update s.scripts i (next (post call response).result).settle.2
            metrics := bumpAll s.metrics ((post call response).bumps ++ (next (post call response).result).settle.1)
            posts := s.posts ++ [(call, response)] }

/-! ### The file -/

/-- A value of the written object: an integer, a float or a text. -/
inductive Entry (F : Type) where
  | int (n : Int)
  | float (x : F)
  | text (s : Str)

def Entry.int? {F : Type} : Entry F → Option Int
  | .int n => some n
  | _ => none

/-- The environment of a run. -/
structure Settings (F : Type) where
  scenario : Scenario
  largePayloadChars : Nat
  /-- `LOAD_PROFILE == "organizer"` -/
  organizer : Bool
  organizerDuration : Int
  organizerMaxUsers : Int
  organizerTargetAverage : F
  targetRps : F
  userCount : Int

section
variable {F : Type} (settings : Settings F) (m : CustomMetrics)

/-- The masks without a demask are incomplete roundtrips, also those that the end of the test has cut off. -/
def reconciledIncomplete : Int :=
  let totalIncomplete := m .maskRequests - m .demaskRequests
  max (m .incompleteRoundtrips) (if totalIncomplete < 0 then 0 else totalIncomplete)

/-- `_write_custom_metrics` -/
def writeCustomMetrics : OrderedDict Str (Entry F) :=
  let snapshot : OrderedDict Str (Entry F) := OrderedDict.ofList (counters.map fun c => (c.key, .int (m c)))
  let snapshot := if settings.scenario = .roundtrip then
      snapshot.set Counter.incompleteRoundtrips.key (.int (reconciledIncomplete m)) else snapshot
  let snapshot := (snapshot.set "scenario".toList (.text settings.scenario.name)).set "total_http_requests".toList
    (.int (m .http2xx + m .http429 + m .http422 + m .httpOther + m .transportErrors))
  if settings.organizer then
    let snapshot := ((snapshot.set "profile".toList (.text "organizer".toList)).set "profile_duration_seconds".toList
      (.int settings.organizerDuration)).set "profile_max_users".toList (.int settings.organizerMaxUsers)
    if settings.organizerDuration = 480 then
      snapshot.set "target_average_rps".toList (.float settings.organizerTargetAverage) else snapshot
  else (snapshot.set "target_rps".toList (.float settings.targetRps)).set "users".toList (.int settings.userCount)

/-- What `read_custom_metrics` keeps of the object: the integers. -/
def readCustomMetrics (data : OrderedDict Str (Entry F)) : OrderedDict Str Int :=
  OrderedDict.ofList (data.entries.filterMap fun e => e.2.int?.map fun n => (e.1, n))

end

end PiiProxy.Locustfile
