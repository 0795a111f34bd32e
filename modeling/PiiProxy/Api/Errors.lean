import PiiProxy.Observability.Metrics
import PiiProxy.Policies.Loader

/-! Responses, and the error handlers that write them (`app/api/errors.py`, `app/api/schemas`, the 429 of
    `app/api/middleware.py`). -/

namespace PiiProxy.Api

/-- What a route ends with instead of a response. -/
inductive Raised where
  | notAllowed (e : ConsumerNotAllowedError)
  | service (e : PIIProxyError)
  deriving DecidableEq, Repr

namespace Raised

def errorType : Raised → String
  | notAllowed _ => "CONSUMER_NOT_ALLOWED"
  | service (.invalidPayload _) => "INVALID_PAYLOAD"
  | service (.processing _) => "PROCESSING_ERROR"
  | service (.serviceOverloaded _ _) => "SERVICE_OVERLOADED"
  | service (.other _) => "INTERNAL_ERROR"

def statusCode : Raised → Nat
  | notAllowed _ => 403
  | service (.invalidPayload _) => 422
  | service (.processing _) => 500
  | service (.serviceOverloaded _ _) => 429
  | service (.other _) => 500

/-- It is no domain error, so that it passes the middleware and `handle_unexpected` answers it. -/
def unexpected : Raised → Bool
  | service (.other _) => true
  | _ => false

end Raised

inductive Body where
  /-- `ProcessResponse` -/
  | result (text : Str)
  /-- `{"status": …}` -/
  | status (text : String)
  | error (errorType : String) (message : Str)
  /-- The registry at the time of the scrape. -/
  | metrics (snapshot : Metrics)
  /-- Written by the framework: the errors of a malformed body, or of a request that no route takes. -/
  | framework

structure Response where
  statusCode : Nat
  body : Body
  requestId : Option Str := none
  retryAfter : Option Nat := none

section
variable (requestId : Str)

def handleDomainError (statusCode : Nat) (errorType : String) (message : Str) (retryAfter : Option Nat) : Response where
  statusCode
  body := .error errorType message
  requestId := some requestId
  retryAfter

def handleProcessingError : Response where
  statusCode := 500
  body := .error "PROCESSING_ERROR" "internal error".toList
  requestId := some requestId

def handleUnexpected : Response where
  statusCode := 500
  body := .error "INTERNAL_ERROR" "internal error".toList
  requestId := some requestId

/-- The handler of the closest class: `ProcessingError` has its own, and the other domain errors share theirs. -/
def handle (e : Raised) : Response :=
  match e with
  | .notAllowed err => handleDomainError requestId e.statusCode e.errorType err.message none
  | .service (.invalidPayload message) => handleDomainError requestId e.statusCode e.errorType message.toList none
  | .service (.processing _) => handleProcessingError requestId
  | .service (.serviceOverloaded message retryAfter) =>
    handleDomainError requestId e.statusCode e.errorType message.toList (some retryAfter)
  | .service (.other _) => handleUnexpected requestId

end

/-- The answer of the rate limiter, which is outside the request ids. -/
def tooManyRequests : Response where
  statusCode := 429
  body := .error "SERVICE_OVERLOADED" "too many requests".toList
  retryAfter := some 1

/-- Every handler answers with the status of the error, and an error body of its type. -/
theorem handle_spec (requestId : Str) (e : Raised) :
    (handle requestId e).statusCode = e.statusCode ∧ (handle requestId e).requestId = some requestId ∧
      ∃ message, (handle requestId e).body = .error e.errorType message := by
  rcases e with err | (message | message | ⟨message, retryAfter⟩ | message)
  · exact ⟨rfl, rfl, err.message, rfl⟩
  · exact ⟨rfl, rfl, message.toList, rfl⟩
  · exact ⟨rfl, rfl, "internal error".toList, rfl⟩
  · exact ⟨rfl, rfl, message.toList, rfl⟩
  · exact ⟨rfl, rfl, "internal error".toList, rfl⟩

end PiiProxy.Api
