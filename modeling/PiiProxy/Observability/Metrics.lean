import PiiProxy.Core

/-! The metrics and what is written to them (`app/observability/metrics.py`). A write is what it adds to each sample of
    the registry; of the durations only the number of observations is kept. -/

namespace PiiProxy

/-- The samples of the registry. -/
inductive Series where
  | httpRequests (method path : Str) (status : Nat)
  | httpRequestDurationCount (method path : Str)
  | inflightRequests
  | operations (operation : Operation)
  | operationDurationCount (operation : Operation)
  | errors (errorType : String)
  | detectedEntities
  | payloadSizeCount
  | payloadSizeSum
  | payloadSizeBucket (le : Nat)
  | stageDurationCount (stage : String)
  deriving DecidableEq

abbrev Metrics := Series → Int

namespace Metrics

def payloadSizeBuckets : List Nat := [64, 256, 1024, 4096, 16384, 65536, 262144, 1048576]

/-- `.inc(amount)`, and `.observe` where only the count is kept. -/
def inc (series : Series) (amount : Int) : Metrics := fun x => if x = series then amount else 0

/-- `payload_size.observe(size_bytes)`: the buckets are cumulative. -/
@[simp] def observePayloadSize (sizeBytes : Nat) : Metrics
  | .payloadSizeCount => 1
  | .payloadSizeSum => sizeBytes
  | .payloadSizeBucket le => if le ∈ payloadSizeBuckets ∧ sizeBytes ≤ le then 1 else 0
  | _ => 0

/-- What `track_inflight` does on entry, and on exit. -/
def enter : Metrics := inc .inflightRequests 1
def exit : Metrics := inc .inflightRequests (-1)

@[simp] def observeHttpRequest (method path : Str) (statusCode : Nat) : List Metrics :=
  [inc (.httpRequests method path statusCode) 1, inc (.httpRequestDurationCount method path) 1]

@[simp] def recordOperation (operation : Operation) : List Metrics :=
  [inc (.operations operation) 1, inc (.operationDurationCount operation) 1]

@[simp] def recordError (errorType : String) : List Metrics := [inc (.errors errorType) 1]

@[simp] def recordEntities (count : Nat) : List Metrics := [inc .detectedEntities count]

@[simp] def recordPayloadSize (sizeBytes : Nat) : List Metrics := [observePayloadSize sizeBytes]

@[simp] def recordStage (stage : String) : List Metrics := [inc (.stageDurationCount stage) 1]

end Metrics

/-- `len(text.encode("utf-8"))` -/
def utf8Length : Str → Nat
  | [] => 0
  | c :: text => c.utf8Size + utf8Length text

end PiiProxy
