import PiiProxy.Scripts.BuildResult

/-! When a passed load test is one whose counters reconcile. The row is compared with the status buckets only if it
counts any requests, so a row without requests passes with any buckets that the other checks accept. -/

namespace PiiProxy.RunPerformance

/-- The counters of the run account for each other, and the service answered. -/
structure Reconciled (scenario : Str) (requests failures : Int) (metrics : OrderedDict Str Int) : Prop where
  keys : ∀ key ∈ required scenario, metrics.contains key = true
  buckets : totalHttp metrics = requests
  kinds : count metrics "mask_requests" + count metrics "demask_requests" = count metrics "http_2xx"
  failures : failures = count metrics "functional_errors" + count metrics "transport_errors"
  answered : 0 < count metrics "http_2xx"
  masked : 0 < count metrics "mask_requests"
  paired : scenario = "roundtrip".toList →
    count metrics "mask_requests" = count metrics "demask_requests" + count metrics "incomplete_roundtrips"

section
variable {F : Type} {ops : FloatOps F}

/-- The row is within the thresholds. -/
structure WithinLevels (r : Readings F) (o : Options ops) : Prop where
  exitCode : o.locustExitCode = 0
  errorRate : ops.lt o.maxErrorRate r.errorRate = false
  p95 : ops.lt o.maxP95Ms r.p95 = false
  p99 : ops.lt o.maxP99Ms r.p99 = false
  ratio : ops.lt (ratio r o) o.minAchievedRatio = false

/-- The gates on concurrency, peak, connections and duration are open. -/
structure GatesOpen (o : Options ops) : Prop where
  users : o.requiredConcurrentUsers ≠ 0 → ops.ltInt o.observedMaxUsers o.requiredConcurrentUsers = false
  peak : ops.truthy o.targetPeakRps = true → ops.truthy o.minPeakRatio = true →
    ops.lt o.observedPeakRps (ops.mul o.targetPeakRps o.minPeakRatio) = false
  connections : o.requiredConcurrentConnections ≠ 0 → o.connectionsMeasured = true ∧
    ∃ peak, o.observedPeakConnections = some peak ∧ ops.ltInt peak o.requiredConcurrentConnections = false
  stable : o.minDurationForStable ≤ o.durationSeconds
  elapsed : ∀ duration, o.measuredDuration = some duration → ops.truthy o.minElapsedDuration = true →
    ops.lt duration o.minElapsedDuration = false

/-- Every check of the counters but the one of the buckets against the request count. -/
structure Consistent (r : Readings F) (o : Options ops) (share : F) (metrics : OrderedDict Str Int) : Prop where
  keys : ∀ key ∈ required o.scenario, metrics.contains key = true
  kinds : count metrics "mask_requests" + count metrics "demask_requests" = count metrics "http_2xx"
  failures : r.failures = count metrics "functional_errors" + count metrics "transport_errors"
  answered : 0 < count metrics "http_2xx"
  masked : 0 < count metrics "mask_requests"
  paired : o.scenario = "roundtrip".toList →
    count metrics "mask_requests" = count metrics "demask_requests" + count metrics "incomplete_roundtrips" ∧
      ops.lt o.maxIncompleteRatio share = false

/-! ### Violations -/

theorem violation_eq_nil {condition : Bool} {message : Str} : violation condition message = [] ↔ condition = false := by
  cases condition <;> simp [violation]

variable {r : Readings F} {o : Options ops} {share : F} {metrics : OrderedDict Str Int}

theorem levelViolations_eq_nil : levelViolations r o = [] ↔ WithinLevels r o := by
  simp only [levelViolations, List.append_eq_nil_iff, violation_eq_nil, decide_eq_false_iff_not, not_not, and_assoc]
  constructor
  · rintro ⟨exitCode, errorRate, p95, p99, ratio⟩
    exact ⟨exitCode, errorRate, p95, p99, ratio⟩
  · rintro ⟨exitCode, errorRate, p95, p99, ratio⟩
    exact ⟨exitCode, errorRate, p95, p99, ratio⟩

/-- Where some mask succeeded, the first check of the round trip is out of play. -/
theorem roundtripViolations_eq_nil (masked : 0 < count metrics "mask_requests") :
    roundtripViolations o share metrics = [] ↔
      count metrics "mask_requests" = count metrics "demask_requests" + count metrics "incomplete_roundtrips" ∧
        ops.lt o.maxIncompleteRatio share = false := by
  have hzero : count metrics "mask_requests" ≠ 0 := by omega
  simp [roundtripViolations, violation_eq_nil, hzero]

theorem metricViolations_eq_nil : metricViolations r o share metrics = [] ↔
    Consistent r o share metrics ∧ (r.requests ≠ 0 → totalHttp metrics = r.requests) := by
  have hkeys : (required o.scenario).filter (fun key => !metrics.contains key) = [] ↔
      ∀ key ∈ required o.scenario, metrics.contains key = true := by
    simp [List.filter_eq_nil_iff]
  have hcount : (r.requests ≠ 0 && totalHttp metrics ≠ r.requests) = false ↔
      (r.requests ≠ 0 → totalHttp metrics = r.requests) := by
    simp
  simp only [metricViolations, List.append_eq_nil_iff, violation_eq_nil, Bool.not_eq_false', List.isEmpty_iff, hkeys,
    hcount, decide_eq_false_iff_not, not_not, Int.not_le, and_assoc]
  constructor
  · rintro ⟨keys, buckets, kinds, failures, answered, masked, paired⟩
    refine ⟨⟨keys, kinds, failures, answered, masked, ?_⟩, buckets⟩
    intro hscenario
    rw [if_pos hscenario] at paired
    exact (roundtripViolations_eq_nil masked).mp paired
  · rintro ⟨⟨keys, kinds, failures, answered, masked, paired⟩, buckets⟩
    refine ⟨keys, buckets, kinds, failures, answered, masked, ?_⟩
    split
    next hscenario => exact (roundtripViolations_eq_nil masked).mpr (paired hscenario)
    next => rfl

theorem gateViolations_eq_nil : gateViolations o = [] ↔ GatesOpen o := by
  have husers : (o.requiredConcurrentUsers ≠ 0 && ops.ltInt o.observedMaxUsers o.requiredConcurrentUsers) = false ↔
      (o.requiredConcurrentUsers ≠ 0 → ops.ltInt o.observedMaxUsers o.requiredConcurrentUsers = false) := by
    simp
  have hpeak : (ops.truthy o.targetPeakRps && ops.truthy o.minPeakRatio &&
      ops.lt o.observedPeakRps (ops.mul o.targetPeakRps o.minPeakRatio)) = false ↔
      (ops.truthy o.targetPeakRps = true → ops.truthy o.minPeakRatio = true →
        ops.lt o.observedPeakRps (ops.mul o.targetPeakRps o.minPeakRatio) = false) := by
    simp
  simp only [gateViolations, List.append_eq_nil_iff, violation_eq_nil, husers, hpeak, decide_eq_false_iff_not,
    Int.not_lt, and_assoc]
  constructor
  · rintro ⟨users, peak, connections, stable, elapsed⟩
    refine ⟨users, peak, ?_, stable, ?_⟩
    · intro hrequired
      rw [if_neg hrequired] at connections
      split at connections
      next observed hmeasured hobserved =>
        exact ⟨hmeasured, observed, hobserved, violation_eq_nil.mp connections⟩
      next => exact absurd connections (List.cons_ne_nil _ _)
    · intro duration hmeasured htruthy
      simpa [hmeasured, violation_eq_nil, htruthy] using elapsed
  · rintro ⟨users, peak, connections, stable, elapsed⟩
    refine ⟨users, peak, ?_, stable, ?_⟩
    · split
      next => rfl
      next hrequired =>
        obtain ⟨hmeasured, observed, hobserved, hreached⟩ := connections hrequired
        simp [hmeasured, hobserved, violation_eq_nil, hreached]
    · split
      next => rfl
      next duration hmeasured =>
        rw [violation_eq_nil, Bool.and_eq_false_imp]
        exact elapsed duration hmeasured

/-- The verdict is free of violations exactly if all checks hold, the last of them only for a row with requests. -/
theorem violations_eq_nil : violations r o share = [] ↔ ∃ metrics, o.customMetrics = some metrics ∧
    (WithinLevels r o ∧ GatesOpen o ∧ Consistent r o share metrics) ∧
      (r.requests ≠ 0 → totalHttp metrics = r.requests) := by
  rw [violations, List.append_eq_nil_iff, List.append_eq_nil_iff, levelViolations_eq_nil, gateViolations_eq_nil]
  cases hmetrics : o.customMetrics with
  | none => simp
  | some metrics =>
    constructor
    · rintro ⟨⟨hlevels, hchecks⟩, hgates⟩
      obtain ⟨hconsistent, hbuckets⟩ := metricViolations_eq_nil.mp hchecks
      exact ⟨metrics, rfl, ⟨hlevels, hgates, hconsistent⟩, hbuckets⟩
    · rintro ⟨_, ⟨⟩, ⟨hlevels, hgates, hconsistent⟩, hbuckets⟩
      exact ⟨⟨hlevels, metricViolations_eq_nil.mpr ⟨hconsistent, hbuckets⟩⟩, hgates⟩

theorem Consistent.reconciled (h : Consistent r o share metrics) (hbuckets : totalHttp metrics = r.requests) :
    Reconciled o.scenario r.requests r.failures metrics :=
  ⟨h.keys, hbuckets, h.kinds, h.failures, h.answered, h.masked, fun hscenario => (h.paired hscenario).1⟩

/-! ### The verdict -/

variable {row : OrderedDict Str Str}

theorem buildResult_eq_ok {result : StepResult ops} : buildResult o row = .ok result ↔
    ∃ r share, read ops row o = .ok r ∧
      incompleteRatio ops (o.customMetrics.getD OrderedDict.empty) = .ok share ∧ stepResult r o share = result := by
  rw [buildResult]
  rcases hread : read ops row o with error | r
  · simp [bind, Except.bind]
  rcases hshare : incompleteRatio ops (o.customMetrics.getD OrderedDict.empty) with error | share
  · simp [bind, Except.bind]
  · simp [bind, Except.bind, pure, Except.pure]

theorem stepResult_passed : (stepResult r o share).passed = true ↔ violations r o share = [] :=
  List.isEmpty_iff

/-- A passed run reconciles unless its row counts no requests, the buckets are not all empty and no other check
objects. -/
theorem passed_reconciled_iff (o : Options ops) (row : OrderedDict Str Str) :
    (∀ result, buildResult o row = .ok result → result.passed = true → ∃ metrics, o.customMetrics = some metrics ∧
      Reconciled o.scenario result.readings.requests result.readings.failures metrics) ↔
    ∀ r, read ops row o = .ok r → r.requests = 0 → ∀ metrics, o.customMetrics = some metrics →
      ∀ share, incompleteRatio ops metrics = .ok share →
        WithinLevels r o → GatesOpen o → Consistent r o share metrics → totalHttp metrics = 0 := by
  constructor
  · intro h r hread hnone metrics hmetrics share hshare hlevels hgates hconsistent
    have hpassed : (stepResult r o share).passed = true :=
      stepResult_passed.mpr (violations_eq_nil.mpr
        ⟨metrics, hmetrics, ⟨hlevels, hgates, hconsistent⟩, fun hrequests => absurd hnone hrequests⟩)
    have hresult : buildResult o row = .ok (stepResult r o share) :=
      buildResult_eq_ok.mpr ⟨r, share, hread, by rw [hmetrics, Option.getD_some, hshare], rfl⟩
    obtain ⟨metrics', hmetrics', hreconciled⟩ := h _ hresult hpassed
    obtain rfl : metrics' = metrics := Option.some.inj (hmetrics'.symm.trans hmetrics)
    exact hreconciled.buckets.trans hnone
  · intro h result hresult hpassed
    obtain ⟨r, share, hread, hshare, rfl⟩ := buildResult_eq_ok.mp hresult
    obtain ⟨metrics, hmetrics, ⟨hlevels, hgates, hconsistent⟩, hbuckets⟩ :=
      violations_eq_nil.mp (stepResult_passed.mp hpassed)
    rw [hmetrics, Option.getD_some] at hshare
    refine ⟨metrics, hmetrics, hconsistent.reconciled ?_⟩
    by_cases hnone : r.requests = 0
    · rw [hnone]
      exact h r hread hnone metrics hmetrics share hshare hlevels hgates hconsistent
    · exact hbuckets hnone

end

/-! ### A run whose row counts no requests -/

/-- Exact arithmetic. No message of this run is formatted. -/
def rational : FloatOps Rat where
  parse text := if text.all Char.isDigit then .ok (text.foldl (fun n c => 10 * n + (c.toNat - '0'.toNat : Nat)) 0)
    else .error (.other "ValueError")
  literal q := q
  toInt q := .ok (q.num.tdiv q.den)
  ofInt n := n
  divInt m n := .ok (m / n)
  div x y := x / y
  mul x y := x * y
  lt x y := x < y
  ltInt x n := x < n
  truthy x := x ≠ 0
  fixed _ x := intText x.floor
  percent x := intText (100 * x).floor

/-- One mask answered with 200. -/
def oneMask : OrderedDict Str Int :=
  [("http_2xx", 1), ("http_429", 0), ("http_422", 0), ("http_other", 0), ("transport_errors", 0), ("mask_requests", 1),
    ("demask_requests", 0), ("functional_errors", 0)].foldl (fun d kv => d.set kv.1.toList kv.2) OrderedDict.empty

/-- A load test of a service that may fail at any rate. -/
def lenient : Options rational where
  targetRps := 1
  users := 1
  durationSeconds := 30
  locustExitCode := 0
  maxErrorRate := 100
  maxP95Ms := 0
  maxP99Ms := 0
  minAchievedRatio := 0
  customMetrics := some oneMask

/-- Locust wrote no CSV, and the buckets count one request. -/
theorem unreconciled_passed : ∃ result, buildResult lenient emptyAggregate = .ok result ∧ result.passed = true ∧
    result.readings.requests = 0 ∧ totalHttp oneMask = 1 := by
  have hread : read rational emptyAggregate lenient = .ok ⟨0, 0, 0, 100, 0, 0, 0, 0⟩ := by decide +kernel
  have hshare : incompleteRatio rational (lenient.customMetrics.getD OrderedDict.empty) = .ok 0 := by decide +kernel
  have hpassed : violations ⟨0, 0, 0, 100, 0, 0, 0, 0⟩ lenient 0 = [] := by decide +kernel
  exact ⟨_, buildResult_eq_ok.mpr ⟨_, 0, hread, hshare, rfl⟩, stepResult_passed.mpr hpassed, rfl, by decide⟩

end PiiProxy.RunPerformance
