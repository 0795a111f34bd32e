import PiiProxy.Core
import PiiProxy.Lib.OrderedDict

/-! The verdict on a load test (`build_result` in `scripts/run_performance.py`). The operations on floats are a parameter. -/

namespace PiiProxy.RunPerformance

/-- The operations of Python on floats that the verdict uses. -/
structure FloatOps (F : Type) where
  /-- `float(text)` -/
  parse : Str → Except PIIProxyError F
  /-- The float that a literal denotes. -/
  literal : Rat → F
  /-- `int(x)` -/
  toInt : F → Except PIIProxyError Int
  /-- `float(n)` -/
  ofInt : Int → F
  /-- `m / n` -/
  divInt : Int → Int → Except PIIProxyError F
  div : F → F → F
  mul : F → F → F
  lt : F → F → Bool
  /-- `x < n` -/
  ltInt : F → Int → Bool
  /-- `bool(x)` -/
  truthy : F → Bool
  /-- `f"{x:.nf}"` -/
  fixed : Nat → F → Str
  /-- `f"{x:.0%}"` -/
  percent : F → Str

/-- The keyword arguments of `build_result`, with their defaults. -/
structure Options {F : Type} (ops : FloatOps F) where
  targetRps : F
  users : Int
  durationSeconds : Int
  locustExitCode : Int
  maxErrorRate : F
  maxP95Ms : F
  maxP99Ms : F
  minAchievedRatio : F
  scenario : Str := "mixed".toList
  customMetrics : Option (OrderedDict Str Int) := none
  cpuPercent : Option F := none
  memoryMb : Option F := none
  peakCpuPercent : Option F := none
  peakMemoryMb : Option F := none
  cpuMeasured : Bool := false
  memoryMeasured : Bool := false
  connectionsMeasured : Bool := false
  observedPeakConnections : Option F := none
  requiredConcurrentConnections : Int := 0
  minDurationForStable : Int := 30
  observedMaxUsers : F := ops.literal 0
  observedPeakRps : F := ops.literal 0
  targetPeakRps : F := ops.literal 0
  requiredConcurrentUsers : Int := 0
  minPeakRatio : F := ops.literal 0
  maxIncompleteRatio : F := ops.literal (1 / 100)
  measuredDuration : Option F := none
  minElapsedDuration : F := ops.literal 0

/-- What `build_result` reads from the aggregate row, and the error rate. -/
structure Readings (F : Type) where
  requests : Int
  failures : Int
  achievedRps : F
  errorRate : F
  avg : F
  p50 : F
  p95 : F
  p99 : F
  deriving DecidableEq

/-- The fields that only pass on a reading or an argument are those of `readings` and `options`. -/
structure StepResult {F : Type} (ops : FloatOps F) where
  readings : Readings F
  options : Options ops
  achievedRatio : F
  maskRequests : Int
  demaskRequests : Int
  incompleteRoundtrips : Int
  incompleteRatio : F
  http2xx : Int
  http429 : Int
  http422 : Int
  httpOther : Int
  functionalErrors : Int
  transportErrors : Int
  customMetricsPresent : Bool
  passed : Bool
  violations : List Str

/-- Locust produced no CSV. -/
def emptyAggregate : OrderedDict Str Str :=
  ["Request Count", "Failure Count", "Requests/s", "Average Response Time", "50%", "95%", "99%"].foldl
    (fun row key => row.set key.toList "0".toList) OrderedDict.empty

/-- `custom_metrics.get(key, 0)` -/
def count (metrics : OrderedDict Str Int) (key : String) : Int := (metrics.get? key.toList).getD 0

/-- `violations.append(message)` under a condition. -/
def violation (condition : Bool) (message : Str) : List Str := if condition then [message] else []

def intText (n : Int) : Str := (toString n).toList

/-- The representation of a list of plain keys. -/
def listText (keys : List Str) : Str := "[".toList ++ ", ".toList.intercalate (keys.map fun key => "'".toList ++ key ++ "'".toList) ++ "]".toList

def required (scenario : Str) : List Str :=
  ["http_2xx", "http_429", "http_422", "http_other", "transport_errors", "mask_requests", "demask_requests",
    "functional_errors"].map String.toList ++ if scenario = "roundtrip".toList then ["incomplete_roundtrips".toList] else []

def totalHttp (metrics : OrderedDict Str Int) : Int :=
  count metrics "http_2xx" + count metrics "http_429" + count metrics "http_422" + count metrics "http_other" +
    count metrics "transport_errors"

section
variable {F : Type} (ops : FloatOps F)

/-- `_number` -/
def number (row : OrderedDict Str Str) (key : String) : Except PIIProxyError F :=
  match (row.get? key.toList).getD [] with
  | [] => .ok (ops.literal 0)
  | value => ops.parse value

def read (row : OrderedDict Str Str) (o : Options ops) : Except PIIProxyError (Readings F) := do
  let requests ← ops.toInt (← number ops row "Request Count")
  let failures ← ops.toInt (← number ops row "Failure Count")
  let achievedRps ←
    match o.measuredDuration with
    | some duration =>
      if ops.lt (ops.literal 0) duration then pure (ops.div (ops.ofInt requests) duration) else number ops row "Requests/s"
    | none => number ops row "Requests/s"
  let errorRate ←
    if requests ≠ 0 then do pure (ops.mul (← ops.divInt failures requests) (ops.literal 100)) else pure (ops.literal 100)
  return {
    requests, failures, achievedRps, errorRate
    avg := ← number ops row "Average Response Time"
    p50 := ← number ops row "50%"
    p95 := ← number ops row "95%"
    p99 := ← number ops row "99%" }

/-- The share of the incomplete pairs, which the source computes in the check and again for the result. -/
def incompleteRatio (metrics : OrderedDict Str Int) : Except PIIProxyError F :=
  if count metrics "mask_requests" ≠ 0 then
    ops.divInt (count metrics "incomplete_roundtrips") (count metrics "mask_requests")
  else .ok (ops.literal 0)

variable {ops}
variable (r : Readings F) (o : Options ops)

def ratio : F := if ops.truthy o.targetRps then ops.div r.achievedRps o.targetRps else ops.literal 0

/-- The checks of the row against the thresholds. -/
def levelViolations : List Str :=
  violation (o.locustExitCode ≠ 0) ("locust exit code ".toList ++ intText o.locustExitCode) ++
  violation (ops.lt o.maxErrorRate r.errorRate)
    ("error rate ".toList ++ ops.fixed 2 r.errorRate ++ "% > ".toList ++ ops.fixed 2 o.maxErrorRate ++ "%".toList) ++
  violation (ops.lt o.maxP95Ms r.p95)
    ("p95 ".toList ++ ops.fixed 1 r.p95 ++ "ms > ".toList ++ ops.fixed 1 o.maxP95Ms ++ "ms".toList) ++
  violation (ops.lt o.maxP99Ms r.p99)
    ("p99 ".toList ++ ops.fixed 1 r.p99 ++ "ms > ".toList ++ ops.fixed 1 o.maxP99Ms ++ "ms".toList) ++
  violation (ops.lt (ratio r o) o.minAchievedRatio)
    ("achieved ratio ".toList ++ ops.fixed 3 (ratio r o) ++ " < ".toList ++ ops.fixed 3 o.minAchievedRatio)

/-- The reconciliation of masks and demasks in the main profile. -/
def roundtripViolations (share : F) (metrics : OrderedDict Str Int) : List Str :=
  let maskCount := count metrics "mask_requests"
  let demaskCount := count metrics "demask_requests"
  let incomplete := count metrics "incomplete_roundtrips"
  (if maskCount = 0 ∧ demaskCount = 0 then ["roundtrip: no MASK or DEMASK operations recorded".toList]
    else violation (maskCount ≠ demaskCount + incomplete)
      ("roundtrip reconciliation: MASK ".toList ++ intText maskCount ++ " != DEMASK ".toList ++ intText demaskCount ++
        " + incomplete ".toList ++ intText incomplete)) ++
  violation (maskCount ≠ 0 && ops.lt o.maxIncompleteRatio share)
    ("roundtrip incomplete pairs ".toList ++ intText incomplete ++ " > ".toList ++ ops.percent o.maxIncompleteRatio ++
      " of MASK ".toList ++ intText maskCount)

/-- The checks of the custom metrics. -/
def metricViolations (share : F) (metrics : OrderedDict Str Int) : List Str :=
  let missing := (required o.scenario).filter fun key => !metrics.contains key
  let maskDemask := count metrics "mask_requests" + count metrics "demask_requests"
  let customErrors := count metrics "functional_errors" + count metrics "transport_errors"
  violation (!missing.isEmpty) ("custom metrics missing required keys: ".toList ++ listText missing) ++
  violation (r.requests ≠ 0 && totalHttp metrics ≠ r.requests)
    ("counter mismatch: custom http total ".toList ++ intText (totalHttp metrics) ++ " != locust request count ".toList ++
      intText r.requests) ++
  violation (maskDemask ≠ count metrics "http_2xx")
    ("counter mismatch: mask+demask ".toList ++ intText maskDemask ++ " != http_2xx ".toList ++
      intText (count metrics "http_2xx")) ++
  violation (r.failures ≠ customErrors)
    ("counter mismatch: locust failure count ".toList ++ intText r.failures ++
      " != custom functional+transport errors ".toList ++ intText customErrors) ++
  violation (count metrics "http_2xx" ≤ 0) "no successful 2xx responses: all requests were 429/errors".toList ++
  violation (count metrics "mask_requests" ≤ 0) "no successful mask operations recorded".toList ++
  if o.scenario = "roundtrip".toList then roundtripViolations o share metrics else []

/-- The gates on concurrency, peak, connections and duration. -/
def gateViolations : List Str :=
  violation (o.requiredConcurrentUsers ≠ 0 && ops.ltInt o.observedMaxUsers o.requiredConcurrentUsers)
    ("observed max users ".toList ++ ops.fixed 0 o.observedMaxUsers ++ " < required ".toList ++
      intText o.requiredConcurrentUsers) ++
  violation (ops.truthy o.targetPeakRps && ops.truthy o.minPeakRatio &&
      ops.lt o.observedPeakRps (ops.mul o.targetPeakRps o.minPeakRatio))
    ("observed peak RPS ".toList ++ ops.fixed 1 o.observedPeakRps ++ " < target peak ".toList ++
      ops.fixed 0 o.targetPeakRps ++ " * ".toList ++ ops.fixed 2 o.minPeakRatio) ++
  (if o.requiredConcurrentConnections = 0 then []
    else match o.connectionsMeasured, o.observedPeakConnections with
      | true, some peak =>
        violation (ops.ltInt peak o.requiredConcurrentConnections)
          ("observed peak connections ".toList ++ ops.fixed 0 peak ++ " < required ".toList ++
            intText o.requiredConcurrentConnections)
      | _, _ => ["required concurrent connections gate cannot be verified: connection sampling unavailable".toList]) ++
  violation (o.durationSeconds < o.minDurationForStable)
    ("duration ".toList ++ intText o.durationSeconds ++ "s < ".toList ++ intText o.minDurationForStable ++
      "s: percentiles are not stable".toList) ++
  match o.measuredDuration with
  | none => []
  | some duration =>
    violation (ops.truthy o.minElapsedDuration && ops.lt duration o.minElapsedDuration)
      ("measured elapsed ".toList ++ ops.fixed 1 duration ++ "s < required ".toList ++ ops.fixed 1 o.minElapsedDuration ++
        "s: run too short to be a valid throughput measurement".toList)

def violations (share : F) : List Str :=
  levelViolations r o ++
  (match o.customMetrics with
    | none => ["custom metrics missing or unparseable".toList]
    | some metrics => metricViolations r o share metrics) ++
  gateViolations o

def stepResult (share : F) : StepResult ops :=
  let metrics := o.customMetrics.getD OrderedDict.empty
  { readings := r
    options := o
    achievedRatio := ratio r o
    maskRequests := count metrics "mask_requests"
    demaskRequests := count metrics "demask_requests"
    incompleteRoundtrips := count metrics "incomplete_roundtrips"
    incompleteRatio := share
    http2xx := count metrics "http_2xx"
    http429 := count metrics "http_429"
    http422 := count metrics "http_422"
    httpOther := count metrics "http_other"
    functionalErrors := count metrics "functional_errors"
    transportErrors := count metrics "transport_errors"
    customMetricsPresent := o.customMetrics.isSome
    passed := (violations r o share).isEmpty
    violations := violations r o share }

def buildResult (row : OrderedDict Str Str) : Except PIIProxyError (StepResult ops) := do
  let r ← read ops row o
  let share ← incompleteRatio ops (o.customMetrics.getD OrderedDict.empty)
  return stepResult r o share

end

end PiiProxy.RunPerformance
