import PiiProxy.Api.Dependencies
import PiiProxy.Api.Errors
import PiiProxy.Core.RateLimit
import PiiProxy.Processing.Concurrent

/-! The application (`app/main.py`, with the middleware of `app/api` and its routes), over the in-memory store. A request
    goes through the rate limiter, then `observe_http_request`, the error handlers and its route. The steps of different
    requests come in any order; those of a call of `process` are the steps of the process service. -/

namespace PiiProxy.Http
open Api

/-- A body that the schema accepts. -/
structure ProcessRequest where
  payload : Str
  payloadId : Str
  payload_ne_nil : payload ≠ []
  payloadId_ne_nil : payloadId ≠ []

/-- The validation of the two text fields. -/
def ProcessRequest.ofFields? (fields : Str × Str) : Option ProcessRequest :=
  if hpayload : fields.1 = [] then none
  else if hid : fields.2 = [] then none
  else some ⟨fields.1, fields.2, hpayload, hid⟩

/-- What a request asks for. -/
inductive Endpoint where
  /-- `POST /process`, with the fields of the body if they are there and are texts. -/
  | process (fields : Option (Str × Str))
  | health
  | readiness
  | metrics
  /-- Another method on the path of a route. -/
  | methodNotAllowed (method path : Str)
  /-- A path of no route, with the status by which the framework answers. -/
  | unmatched (method path : Str) (statusCode : Nat)

structure HttpRequest where
  endpoint : Endpoint
  xRequestId : Option Str := none
  xConsumerId : Option Str := none

namespace Endpoint

def method : Endpoint → Str
  | process _ => "POST".toList
  | health | readiness | metrics => "GET".toList
  | methodNotAllowed method _ | unmatched method _ _ => method

/-- `scope["path"]` -/
def path : Endpoint → Str
  | process _ => "/process".toList
  | health => "/health".toList
  | readiness => "/health/ready".toList
  | metrics => "/metrics".toList
  | methodNotAllowed _ path | unmatched _ path _ => path

/-- `getattr(route, "path", "unmatched")` -/
def label : Endpoint → Str
  | process _ => "/process".toList
  | health => "/health".toList
  | readiness => "/health/ready".toList
  | metrics => "/metrics".toList
  | methodNotAllowed _ path => path
  | unmatched _ _ _ => "unmatched".toList

end Endpoint

/-- How a route ends. -/
inductive Outcome where
  | invalidBody
  | raised (e : Raised)
  /-- Whether the call has prepared a mask goes into the stages that it reports. -/
  | processed (out : ProcessOutcome) (prepared : Bool)
  | health
  | ready (ok : Bool)
  | scraped (snapshot : Metrics)
  | unrouted (statusCode : Nat)

/-- What `handle_unexpected` writes, outside the middleware. -/
def Outcome.outerWrites : Outcome → List Metrics
  | raised e => if e.unexpected then Metrics.recordError e.errorType else []
  | _ => []

/-- Where a request stands. -/
inductive Phase where
  /-- Before the rate limiter. -/
  | arriving
  /-- Before `observe_http_request`. -/
  | admitted
  /-- Counted as in flight, before its route. -/
  | entered
  /-- In `process_service.process`. -/
  | running (prepared : Bool)
  /-- The route is over, and so many of the metrics are written. -/
  | recording (outcome : Outcome) (written : Nat)
  | answered (outcome : Outcome)
  /-- By the rate limiter. -/
  | rejected

/-- The wiring, with the requests and what each finds outside. -/
structure Service (ι : Type) where
  digests : Digests
  around : ι → Surroundings
  stripe : Str → Nat
  provider : FilePolicyProvider
  defaultConsumerId : Str
  request : ι → HttpRequest
  uuid4 : ι → Str

def globalKey : Str := "global".toList
def readinessProbe : Str := "__readiness_probe__".toList

/-- `arrivals` are the calls of the limiter and `admissions` those that it allowed; no step looks at them. -/
structure System (codec : Codec) (ι : Type) where
  clock : Time
  limiter : SlidingWindowRateLimiter
  metrics : Metrics
  core : ProcessService.System codec ι
  phase : ι → Phase
  arrivals : List (ι × Time)
  admissions : List (ι × Time)

section
variable {codec : Codec} {ι : Type}

namespace Service
variable (service : Service ι) (i : ι)

def consumerId : Str := getConsumerId service.defaultConsumerId (service.request i).xConsumerId

def requestId : Str := normalizeRequestId (service.request i).xRequestId (service.uuid4 i)

/-- The middleware limits one path. -/
def limited : Bool := (service.request i).endpoint.path == "/process".toList

/-- The call of `process` that a request leads to, if its body is valid and its consumer has a policy. -/
def call? : Option Request :=
  match (service.request i).endpoint with
  | .process fields =>
    match fields.bind ProcessRequest.ofFields?, service.provider.getPolicy (service.consumerId i) with
    | some body, .ok policy => some ⟨body.payload, body.payloadId, policy⟩
    | _, _ => none
  | _ => none

/-- The calls of the process service. A request without one never takes a step there. -/
def calls : ProcessService.Calls ι where
  digests := service.digests
  around := service.around
  request i := (service.call? i).getD ⟨[], [], ConsumerPolicy.default⟩
  stripe := service.stripe

/-- What a route answers at once. -/
def immediate : Option Outcome :=
  match (service.request i).endpoint with
  | .process fields =>
    match fields.bind ProcessRequest.ofFields? with
    | none => some .invalidBody
    | some _ =>
      match service.provider.getPolicy (service.consumerId i) with
      | .error e => some (.raised (.notAllowed e))
      | .ok _ => none
  | .health => some .health
  | .methodNotAllowed _ _ => some (.unrouted 405)
  | .unmatched _ _ statusCode => some (.unrouted statusCode)
  | .readiness | .metrics => none

/-- `policy_provider.get_policy("default")` of the readiness probe. -/
def defaultPolicy : Except ConsumerNotAllowedError ConsumerPolicy := service.provider.getPolicy "default".toList

/-- The response to the client. -/
def response : Outcome → Response
  | .invalidBody => { statusCode := 422, body := .framework, requestId := some (service.requestId i) }
  | .raised e => handle (service.requestId i) e
  | .processed out _ => { statusCode := 200, body := .result out.result, requestId := some (service.requestId i) }
  | .health => { statusCode := 200, body := .status "ok", requestId := some (service.requestId i) }
  | .ready true => { statusCode := 200, body := .status "ready", requestId := some (service.requestId i) }
  | .ready false => { statusCode := 503, body := .status "not_ready", requestId := some (service.requestId i) }
  | .scraped snapshot => { statusCode := 200, body := .metrics snapshot, requestId := some (service.requestId i) }
  | .unrouted statusCode => { statusCode, body := .framework, requestId := some (service.requestId i) }

/-- The response that a request has been sent. -/
def sent : Phase → Option Response
  | .answered outcome => some (service.response i outcome)
  | .rejected => some tooManyRequests
  | .arriving | .admitted | .entered | .running _ | .recording _ _ => none

/-- What the process service writes about a call that is over. -/
def processWrites (out : ProcessOutcome) (prepared : Bool) : List Metrics :=
  Metrics.recordOperation out.operation ++ Metrics.recordEntities out.entityCount ++
    Metrics.recordPayloadSize (utf8Length (service.calls.request i).payload) ++
    (Metrics.recordStage "state_lookup_ms" ++ (if prepared then Metrics.recordStage "prepare_ms" else []) ++
      Metrics.recordStage "transition_ms")

/-- What the route and the handlers inside the middleware write. -/
def innerWrites : Outcome → List Metrics
  | .processed out prepared => service.processWrites i out prepared
  | .raised e => if e.unexpected then [] else Metrics.recordError e.errorType
  | _ => []

/-- The end of `observe_http_request`. -/
def observed (outcome : Outcome) : List Metrics :=
  Metrics.exit :: Metrics.observeHttpRequest (service.request i).endpoint.method (service.request i).endpoint.label
    (service.response i outcome).statusCode

/-- All that is written between the end of a route and the response, in this order. -/
def writes (outcome : Outcome) : List Metrics :=
  service.innerWrites i outcome ++ service.observed i outcome ++ outcome.outerWrites

end Service

/-- The call has found no record. -/
def isPreparing : ProcessService.Phase → Bool
  | .preparing => true
  | _ => false

/-- How the answer of the process service ends the route. -/
def outcomeOf (answer : ProcessService.Answer) (prepared : Bool) : Outcome :=
  match answer with
  | .ok out => .processed out prepared
  | .error e => .raised (.service e)

/-- No request has come. -/
def System.start (ι : Type) (clock : Time) (limiter : SlidingWindowRateLimiter) (store : InMemoryRestorationStore codec) :
    System codec ι where
  clock
  limiter
  metrics := 0
  core := ProcessService.System.start ι store
  phase _ := .arriving
  arrivals := []
  admissions := []

def System.write (s : System codec ι) (samples : Metrics) : System codec ι := { s with metrics := s.metrics + samples }

def System.withCore (s : System codec ι) (core : ProcessService.System codec ι) : System codec ι := { s with core }

section
variable (s : System codec ι) (samples : Metrics) (core : ProcessService.System codec ι)

@[simp] theorem phase_write : (s.write samples).phase = s.phase := rfl
@[simp] theorem metrics_write : (s.write samples).metrics = s.metrics + samples := rfl
@[simp] theorem core_write : (s.write samples).core = s.core := rfl
@[simp] theorem phase_withCore : (s.withCore core).phase = s.phase := rfl
@[simp] theorem metrics_withCore : (s.withCore core).metrics = s.metrics := rfl
@[simp] theorem core_withCore : (s.withCore core).core = core := rfl

end

variable [DecidableEq ι]

def System.moveTo (s : System codec ι) (i : ι) (phase : Phase) : System codec ι :=
  { s with phase := Function.update s.phase i phase }

/-- The call of the limiter for a request. -/
def System.limit (s : System codec ι) (i : ι) (t : Time) : System codec ι :=
  let answer := s.limiter.allow globalKey t
  { s with
    clock := t
    limiter := answer.2
    phase := Function.update s.phase i (if answer.1 then .admitted else .rejected)
    arrivals := s.arrivals ++ [(i, t)]
    admissions := if answer.1 then s.admissions ++ [(i, t)] else s.admissions }

section Fields
variable (s : System codec ι) (i : ι) (phase : Phase) (t : Time)

@[simp] theorem phase_moveTo : (s.moveTo i phase).phase = Function.update s.phase i phase := rfl
@[simp] theorem metrics_moveTo : (s.moveTo i phase).metrics = s.metrics := rfl
@[simp] theorem core_moveTo : (s.moveTo i phase).core = s.core := rfl
@[simp] theorem phase_limit : (s.limit i t).phase =
    Function.update s.phase i (if (s.limiter.allow globalKey t).1 then .admitted else .rejected) := rfl
@[simp] theorem metrics_limit : (s.limit i t).metrics = s.metrics := rfl
@[simp] theorem core_limit : (s.limit i t).core = s.core := rfl

end Fields

/-- One step of one request. -/
inductive Step (service : Service ι) : System codec ι → System codec ι → Prop
  | limit {s i t} : s.phase i = .arriving → service.limited i = true → s.clock ≤ t → Step service s (s.limit i t)
  | pass {s i} : s.phase i = .arriving → service.limited i = false → Step service s (s.moveTo i .admitted)
  | enter {s i} : s.phase i = .admitted → Step service s ((s.write Metrics.enter).moveTo i .entered)
  | respond {s i outcome} : s.phase i = .entered → service.immediate i = some outcome →
      Step service s (s.moveTo i (.recording outcome 0))
  /-- The probe asks for the default policy first. -/
  | unready {s i e} : s.phase i = .entered → (service.request i).endpoint = .readiness →
      service.defaultPolicy = .error e → Step service s (s.moveTo i (.recording (.ready false) 0))
  | probe {s i policy now found store} : s.phase i = .entered → (service.request i).endpoint = .readiness →
      service.defaultPolicy = .ok policy → s.core.store.get readinessProbe now = (found, store) →
      Step service s ((s.withCore { s.core with store := store }).moveTo i (.recording (.ready found.isOk) 0))
  | scrape {s i} : s.phase i = .entered → (service.request i).endpoint = .metrics →
      Step service s (s.moveTo i (.recording (.scraped s.metrics) 0))
  | start {s i request} : s.phase i = .entered → service.call? i = some request →
      Step service s (s.moveTo i (.running false))
  | call {s i prepared readings core} : s.phase i = .running prepared →
      ProcessService.Step service.calls s.core readings core → core.phase i ≠ s.core.phase i →
      Step service s ((s.withCore core).moveTo i (.running (prepared || isPreparing (core.phase i))))
  | finish {s i prepared answer} : s.phase i = .running prepared → s.core.phase i = .done answer →
      Step service s (s.moveTo i (.recording (outcomeOf answer prepared) 0))
  | record {s i outcome written samples} : s.phase i = .recording outcome written →
      (service.writes i outcome)[written]? = some samples →
      Step service s ((s.write samples).moveTo i (.recording outcome (written + 1)))
  | answer {s i outcome written} : s.phase i = .recording outcome written → (service.writes i outcome).length ≤ written →
      Step service s (s.moveTo i (.answered outcome))

end

/-- Two requests of the default consumer under the id `1`: an original, and its mask. -/
def exampleService : Service Bool where
  digests := Digests.plain
  around _ := ProcessService.emailOnly
  stripe _ := 0
  provider := FilePolicyProvider.empty.add ConsumerPolicy.default
  defaultConsumerId := "default".toList
  request second := { endpoint := .process (some (if second then "*@*.**".toList else "a@b.ru".toList, "1".toList)) }
  uuid4 _ := "00000000-0000-4000-8000-000000000000".toList

end PiiProxy.Http
