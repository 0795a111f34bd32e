import PiiProxy.Main
import PiiProxy.Observability.Logging

/-! # What the application logs

The records of `observe_http_request`, of the route of `/process`, of the error handlers and of the rate limiter, each with
the request id that the context has there. -/

namespace PiiProxy

/-- `.value` -/
def Operation.value : Operation → Str
  | mask => "MASK".toList
  | demask => "DEMASK".toList

/-- `hash_identifier` (`app/core/security.py`) -/
def hashIdentifier (digests : Digests) (value : Str) : Str := (digests.sha256 value).take 12

namespace Http
open Api Logging JsonText

/-- What the clock and the timer show, and the name of the class of an exception that is no domain error. -/
structure Shown where
  timestamp : Str
  durationMs : Str
  isNumeral_durationMs : isNumeral durationMs = true
  exceptionType : Str

def count (n : Nat) : Value := .number (Nat.toDigits 10 n)

section
variable {ι : Type} (service : Service ι) (i : ι) (shown : Shown)

/-- The end of the route. -/
def processCompleted (out : ProcessOutcome) : LogRecord where
  levelname := "INFO".toList
  name := "pii_security_proxy.api.process".toList
  message := "process_completed".toList
  extra := .ofList [
    ("event".toList, .str "process_completed".toList),
    ("operation".toList, .str out.operation.value),
    ("payload_id_hash".toList, .str (hashIdentifier service.digests (service.calls.request i).payloadId)),
    ("consumer_id".toList, .str (service.consumerId i)),
    ("detected_types".toList, .arr (out.detectedTypes.map .str)),
    ("entity_count".toList, count out.entityCount),
    ("duration_ms".toList, .number shown.durationMs)]

/-- `handle_domain_error` and `handle_processing_error` differ in the level and the event. -/
def handledError (levelname event : Str) (e : Raised) : LogRecord where
  levelname
  name := "pii_security_proxy.api.errors".toList
  message := event
  extra := .ofList [
    ("event".toList, .str event),
    ("request_id".toList, .str (service.requestId i)),
    ("error_type".toList, .str e.errorType.toList),
    ("status_code".toList, count e.statusCode)]

/-- `handle_unexpected` -/
def unexpectedError : LogRecord where
  levelname := "ERROR".toList
  name := "pii_security_proxy.api.errors".toList
  message := "unexpected_error".toList
  extra := .ofList [
    ("event".toList, .str "unexpected_error".toList),
    ("request_id".toList, .str (service.requestId i)),
    ("error_type".toList, .str "INTERNAL_ERROR".toList),
    ("exception_type".toList, .str shown.exceptionType),
    ("status_code".toList, count 500)]

/-- The end of `observe_http_request`. -/
def httpRequestCompleted (outcome : Outcome) : LogRecord where
  levelname := "INFO".toList
  name := "pii_security_proxy.http".toList
  message := "http_request_completed".toList
  extra := .ofList [
    ("event".toList, .str "http_request_completed".toList),
    ("request_id".toList, .str (service.requestId i)),
    ("method".toList, .str (service.request i).endpoint.method),
    ("path".toList, .str (service.request i).endpoint.label),
    ("status_code".toList, count (service.response i outcome).statusCode),
    ("duration_ms".toList, .number shown.durationMs)]

def rateLimited : LogRecord where
  levelname := "WARNING".toList
  name := "pii_security_proxy.api.middleware".toList
  message := "rate_limited global".toList
  extra := .empty

/-- Inside the middleware, before its own record. -/
def innerRecords : Outcome → List LogRecord
  | .processed out _ => [processCompleted service i shown out]
  | .raised (.service (.processing message)) =>
    [handledError service i "ERROR".toList "processing_error".toList (.service (.processing message))]
  | .raised e => if e.unexpected then [] else [handledError service i "WARNING".toList "request_error".toList e]
  | _ => []

/-- Outside, where the context has no request id any more. -/
def outerRecords : Outcome → List LogRecord
  | .raised e => if e.unexpected then [unexpectedError service i shown] else []
  | _ => []

/-- All records about a request, in their order. -/
def Service.logged : Phase → List (Option Str × LogRecord)
  | .answered outcome =>
    (innerRecords service i shown outcome ++ [httpRequestCompleted service i shown outcome]).map
        (fun r => (some (service.requestId i), r)) ++
      (outerRecords service i shown outcome).map fun r => (none, r)
  | .rejected => [(none, rateLimited)]
  | .arriving | .admitted | .entered | .running _ | .recording _ _ => []

end

end Http

end PiiProxy
