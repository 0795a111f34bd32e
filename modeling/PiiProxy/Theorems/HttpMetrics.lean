import Mathlib.Algebra.BigOperators.Pi
import Mathlib.Algebra.BigOperators.Ring.Finset
import Mathlib.Algebra.Order.BigOperators.Group.List
import PiiProxy.Theorems.HttpCompletion

/-! # The metrics add up

Whatever the interleaving, the registry is the sum of what each request has written so far, so that its samples are
numbers of requests. -/

namespace PiiProxy.Http
open Api

@[simp] theorem inc_apply (series x : Series) (amount : Int) :
    Metrics.inc series amount x = if x = series then amount else 0 := rfl

theorem sum_apply (l : List Metrics) (x : Series) : l.sum x = (l.map fun w => w x).sum := Pi.list_sum_apply x l

/-- Writes of which none lowers a sample, up to any of them. -/
theorem sum_take_mono {l : List Metrics} {x : Series} (h : ∀ w ∈ l, 0 ≤ w x) (k : Nat) :
    0 ≤ (l.take k).sum x ∧ (l.take k).sum x ≤ l.sum x := by
  have hnonneg : ∀ l' : List Metrics, (∀ w ∈ l', w ∈ l) → 0 ≤ l'.sum x := by
    intro l' hsub
    rw [sum_apply]
    refine List.sum_nonneg fun v hv => ?_
    obtain ⟨w, hw, rfl⟩ := List.mem_map.mp hv
    exact h w (hsub w hw)
  have hsplit : l.sum x = (l.take k).sum x + (l.drop k).sum x := by
    rw [← Pi.add_apply, ← List.sum_append, List.take_append_drop]
  have hdrop := hnonneg (l.drop k) fun w => List.mem_of_mem_drop
  exact ⟨hnonneg _ fun w => List.mem_of_mem_take, by omega⟩

theorem sum_take_eq_zero {l : List Metrics} {x : Series} (h : ∀ w ∈ l, w x = 0) (k : Nat) : (l.take k).sum x = 0 := by
  rw [sum_apply]
  refine List.sum_eq_zero fun v hv => ?_
  obtain ⟨w, hw, rfl⟩ := List.mem_map.mp hv
  exact h w (List.mem_of_mem_take hw)

section
variable {codec : Codec} {ι : Type} {service : Service ι} {s s' : System codec ι} {i : ι} {outcome : Outcome}

/-! ### What a request writes -/

/-- All that a request has written in a phase. -/
def posted (service : Service ι) (i : ι) : Phase → Metrics
  | .arriving | .admitted | .rejected => 0
  | .entered | .running _ => Metrics.enter
  | .recording outcome written => Metrics.enter + ((service.writes i outcome).take written).sum
  | .answered outcome => Metrics.enter + (service.writes i outcome).sum

/-- The gauge counts the request. -/
def inFlight (service : Service ι) (i : ι) : Phase → Bool
  | .entered | .running _ => true
  | .recording outcome written => written ≤ (service.innerWrites i outcome).length
  | .arriving | .admitted | .rejected | .answered _ => false

/-- No write but the one at the end touches the gauge. -/
theorem inner_inflight (service : Service ι) (i : ι) (outcome : Outcome) :
    ∀ w ∈ service.innerWrites i outcome, w .inflightRequests = 0 := by
  cases outcome with
  | processed out prepared =>
    cases prepared <;> simp [Service.innerWrites, Service.processWrites]
  | raised e => cases hunexpected : e.unexpected <;> simp [Service.innerWrites, hunexpected]
  | invalidBody | health | ready | scraped | unrouted => simp [Service.innerWrites]

theorem outer_inflight (outcome : Outcome) : ∀ w ∈ outcome.outerWrites, w .inflightRequests = 0 := by
  cases outcome with
  | raised e => cases hunexpected : e.unexpected <;> simp [Outcome.outerWrites, hunexpected]
  | processed | invalidBody | health | ready | scraped | unrouted => simp [Outcome.outerWrites]

theorem posted_inflight (service : Service ι) (i : ι) (phase : Phase) :
    posted service i phase .inflightRequests = if inFlight service i phase then 1 else 0 := by
  -- What comes after the end of the middleware's span leaves the gauge alone.
  have hrest : ∀ outcome, ∀ w ∈ Metrics.observeHttpRequest (service.request i).endpoint.method
      (service.request i).endpoint.label (service.response i outcome).statusCode ++ outcome.outerWrites,
      w .inflightRequests = 0 := by
    intro outcome w hw
    rcases List.mem_append.mp hw with hw | hw
    · simp only [Metrics.observeHttpRequest, List.mem_cons, List.not_mem_nil, or_false] at hw
      rcases hw with rfl | rfl <;> simp
    · exact outer_inflight outcome w hw
  have htake : ∀ outcome k, ((service.writes i outcome).take k).sum .inflightRequests =
      if k ≤ (service.innerWrites i outcome).length then 0 else -1 := by
    intro outcome k
    rw [Service.writes, Service.observed, List.append_assoc, List.cons_append, List.take_append, List.sum_append,
      Pi.add_apply, sum_take_eq_zero (inner_inflight service i outcome), zero_add]
    split
    · rename_i hle
      rw [Nat.sub_eq_zero_of_le hle, List.take_zero]
      rfl
    · rename_i hlt
      obtain ⟨n, hn⟩ : ∃ n, k - (service.innerWrites i outcome).length = n + 1 :=
        Nat.exists_eq_succ_of_ne_zero (by omega)
      rw [hn, List.take_succ_cons, List.sum_cons, Pi.add_apply, sum_take_eq_zero (hrest outcome)]
      simp [Metrics.exit]
  cases phase with
  | arriving | admitted | rejected => rfl
  | entered | running => simp [posted, inFlight, Metrics.enter]
  | recording outcome written =>
    rw [posted, Pi.add_apply, htake, inFlight]
    by_cases hle : written ≤ (service.innerWrites i outcome).length
    · simp [hle, Metrics.enter]
    · simp [hle, Metrics.enter]
  | answered outcome =>
    have hlength : (service.innerWrites i outcome).length < (service.writes i outcome).length := by
      rw [Service.writes, Service.observed, List.append_assoc, List.length_append, List.length_append, List.length_cons]
      omega
    rw [posted, Pi.add_apply, ← List.take_length (l := service.writes i outcome), htake, if_neg (by omega)]
    simp [inFlight, Metrics.enter]

/-! ### What a request has written when it is over -/

/-- The operation that a request has carried out. -/
@[simp] def Outcome.operation? : Outcome → Option Operation
  | processed out _ => some out.operation
  | raised _ | invalidBody | health | ready _ | scraped _ | unrouted _ => none

@[simp] def Outcome.errorType? : Outcome → Option String
  | raised e => some e.errorType
  | processed _ _ | invalidBody | health | ready _ | scraped _ | unrouted _ => none

@[simp] def Outcome.entityCount : Outcome → Nat
  | processed out _ => out.entityCount
  | raised _ | invalidBody | health | ready _ | scraped _ | unrouted _ => 0

/-- The outcome of a request that has its response. -/
@[simp] def Phase.outcome? : Phase → Option Outcome
  | answered outcome => some outcome
  | arriving | admitted | entered | running _ | recording _ _ | rejected => none

/-- The labels under which the middleware counts a request. -/
def labels (service : Service ι) (i : ι) (outcome : Outcome) : Str × Str × Nat :=
  ((service.request i).endpoint.method, (service.request i).endpoint.label, (service.response i outcome).statusCode)

/-- The sums of the writes, by series. The middleware's own writes are those of every request. -/
theorem sum_writes (service : Service ι) (i : ι) (outcome : Outcome) (x : Series) :
    (Metrics.enter + (service.writes i outcome).sum) x =
      (service.innerWrites i outcome).sum x +
        (Metrics.observeHttpRequest (service.request i).endpoint.method (service.request i).endpoint.label
          (service.response i outcome).statusCode).sum x + outcome.outerWrites.sum x := by
  rw [Service.writes, Service.observed, List.sum_append, List.sum_append, List.sum_cons]
  simp only [Pi.add_apply, Metrics.enter, Metrics.exit, inc_apply]
  split <;> omega

theorem posted_http (service : Service ι) (i : ι) (outcome : Outcome) (method path : Str) (status : Nat) :
    posted service i (.answered outcome) (.httpRequests method path status) =
      if labels service i outcome = (method, path, status) then 1 else 0 := by
  have hinner : (service.innerWrites i outcome).sum (.httpRequests method path status) = 0 := by
    cases outcome with
    | processed out prepared =>
      cases prepared <;> simp [Service.innerWrites, Service.processWrites]
    | raised e => cases hunexpected : e.unexpected <;> simp [Service.innerWrites, hunexpected]
    | invalidBody | health | ready | scraped | unrouted => simp [Service.innerWrites]
  have houter : outcome.outerWrites.sum (.httpRequests method path status) = 0 := by
    cases outcome with
    | raised e => cases hunexpected : e.unexpected <;> simp [Outcome.outerWrites, hunexpected]
    | processed | invalidBody | health | ready | scraped | unrouted => simp [Outcome.outerWrites]
  rw [posted, sum_writes, hinner, houter]
  simp [labels, eq_comm]

theorem posted_operation (service : Service ι) (i : ι) (outcome : Outcome) (operation : Operation) :
    posted service i (.answered outcome) (.operations operation) =
      if outcome.operation? = some operation then 1 else 0 := by
  rw [posted, sum_writes]
  cases outcome with
  | processed out prepared =>
    cases prepared <;> simp [Service.innerWrites, Service.processWrites, Outcome.outerWrites, eq_comm]
  | raised e => cases hunexpected : e.unexpected <;> simp [Service.innerWrites, hunexpected, Outcome.outerWrites]
  | invalidBody | health | ready | scraped | unrouted =>
    simp [Service.innerWrites, Outcome.outerWrites]

theorem posted_error (service : Service ι) (i : ι) (outcome : Outcome) (errorType : String) :
    posted service i (.answered outcome) (.errors errorType) = if outcome.errorType? = some errorType then 1 else 0 := by
  rw [posted, sum_writes]
  cases outcome with
  | processed out prepared =>
    cases prepared <;> simp [Service.innerWrites, Service.processWrites, Outcome.outerWrites]
  | raised e => cases hunexpected : e.unexpected <;> simp [Service.innerWrites, hunexpected, Outcome.outerWrites, eq_comm]
  | invalidBody | health | ready | scraped | unrouted =>
    simp [Service.innerWrites, Outcome.outerWrites]

theorem posted_entities (service : Service ι) (i : ι) (outcome : Outcome) :
    posted service i (.answered outcome) .detectedEntities = outcome.entityCount := by
  rw [posted, sum_writes]
  cases outcome with
  | processed out prepared =>
    cases prepared <;> simp [Service.innerWrites, Service.processWrites, Outcome.outerWrites]
  | raised e => cases hunexpected : e.unexpected <;> simp [Service.innerWrites, hunexpected, Outcome.outerWrites]
  | invalidBody | health | ready | scraped | unrouted =>
    simp [Service.innerWrites, Outcome.outerWrites]

/-- No write lowers a counter. -/
theorem writes_nonneg (service : Service ι) (i : ι) (outcome : Outcome) {x : Series} (hx : x ≠ .inflightRequests) :
    ∀ w ∈ service.writes i outcome, 0 ≤ w x := by
  have hinc : ∀ {series : Series} {amount : Int}, 0 ≤ amount → 0 ≤ Metrics.inc series amount x := by
    intro series amount hamount
    rw [inc_apply]
    split
    · exact hamount
    · exact le_refl 0
  have hsize : ∀ n, 0 ≤ Metrics.observePayloadSize n x := by
    intro n
    cases x with
    | payloadSizeBucket le =>
      rw [Metrics.observePayloadSize]
      split <;> decide
    | payloadSizeSum => exact Int.natCast_nonneg n
    | _ => simp
  have hexit : 0 ≤ Metrics.exit x := by simp [Metrics.exit, hx]
  have hobserved : ∀ w ∈ service.observed i outcome, 0 ≤ w x := by
    intro w hw
    simp only [Service.observed, Metrics.observeHttpRequest, List.mem_cons, List.not_mem_nil, or_false] at hw
    rcases hw with rfl | rfl | rfl
    · exact hexit
    · exact hinc (by decide)
    · exact hinc (by decide)
  intro w hw
  rw [Service.writes, List.mem_append, List.mem_append] at hw
  rcases hw with (hw | hw) | hw
  · cases outcome with
    | processed out prepared =>
      simp only [Service.innerWrites, Service.processWrites, Metrics.recordOperation, Metrics.recordEntities,
        Metrics.recordPayloadSize, Metrics.recordStage, List.mem_append, List.mem_cons, List.not_mem_nil, or_false] at hw
      rcases hw with (((rfl | rfl) | rfl) | rfl) | ((rfl | hw) | rfl)
      · exact hinc (by decide)
      · exact hinc (by decide)
      · exact hinc (Int.natCast_nonneg _)
      · exact hsize _
      · exact hinc (by decide)
      · cases prepared with
        | false => cases hw
        | true =>
          obtain rfl := List.mem_singleton.mp hw
          exact hinc (by decide)
      · exact hinc (by decide)
    | raised e =>
      cases hunexpected : e.unexpected with
      | true => simp [Service.innerWrites, hunexpected] at hw
      | false =>
        simp only [Service.innerWrites, hunexpected, Metrics.recordError, Bool.false_eq_true, ↓reduceIte,
          List.mem_singleton] at hw
        obtain rfl := hw
        exact hinc (by decide)
    | invalidBody | health | ready | scraped | unrouted => cases hw
  · exact hobserved w hw
  · cases outcome with
    | raised e =>
      cases hunexpected : e.unexpected with
      | false => simp [Outcome.outerWrites, hunexpected] at hw
      | true =>
        simp only [Outcome.outerWrites, hunexpected, Metrics.recordError, ↓reduceIte, List.mem_singleton] at hw
        obtain rfl := hw
        exact hinc (by decide)
    | processed | invalidBody | health | ready | scraped | unrouted => cases hw

/-- The requests that are counted as 200 on the path are those that carried out an operation. -/
theorem Ended.labels_iff {core : ProcessService.Phase} (h : Ended service core i outcome) :
    labels service i outcome = ("POST".toList, "/process".toList, 200) ↔ outcome.operation?.isSome = true := by
  have hstatus : (service.response i outcome).statusCode ≠ 200 →
      labels service i outcome ≠ ("POST".toList, "/process".toList, 200) := fun hne heq =>
    hne (congrArg (fun l => l.2.2) heq)
  have hlabel : (service.request i).endpoint.label ≠ "/process".toList →
      labels service i outcome ≠ ("POST".toList, "/process".toList, 200) := fun hne heq =>
    hne (congrArg (fun l => l.2.1) heq)
  rcases h with ⟨request, answer, prepared, hrequest, -, rfl⟩ | ⟨-, -, himmediate | ⟨hendpoint, ok, rfl⟩ |
    ⟨hendpoint, snapshot, rfl⟩⟩
  · cases answer with
    | ok out =>
      refine ⟨fun _ => rfl, fun _ => ?_⟩
      rw [labels, (call?_eq_some hrequest).2.1]
      rfl
    | error e =>
      refine iff_of_false (hstatus ?_) (by simp [outcomeOf])
      rw [outcomeOf, Service.response, (handle_spec _ _).1]
      cases e <;> simp [Raised.statusCode]
  · rcases immediate_cases himmediate with (rfl | ⟨e, rfl, -⟩) | ⟨rfl, hendpoint⟩ | ⟨method, path, rfl, hendpoint⟩ |
      ⟨method, path, statusCode, rfl, hendpoint⟩
    · exact iff_of_false (hstatus (by simp [Service.response])) (by simp)
    · refine iff_of_false (hstatus ?_) (by simp)
      rw [Service.response, (handle_spec _ _).1]
      simp [Raised.statusCode]
    · exact iff_of_false (hlabel (by rw [hendpoint]; decide)) (by simp)
    · exact iff_of_false (hstatus (by simp [Service.response])) (by simp)
    · refine iff_of_false (hlabel ?_) (by simp)
      rw [hendpoint]
      show "unmatched".toList ≠ "/process".toList
      decide
  · exact iff_of_false (hlabel (by rw [hendpoint]; decide)) (by simp)
  · exact iff_of_false (hlabel (by rw [hendpoint]; decide)) (by simp)

/-! ### The registry is what the requests have written -/

/-- What a request has written when it is over, in terms of its outcome; a rejected one has none. -/
theorem posted_over {phase : Phase} (hover : phase.isOver = true) {x : Series} {value : Outcome → Int}
    (h : ∀ outcome, posted service i (.answered outcome) x = value outcome) :
    posted service i phase x = (phase.outcome?.map value).getD 0 := by
  cases phase with
  | answered outcome => exact h outcome
  | rejected => rfl
  | arriving | admitted | entered | running | recording => cases hover

/-- In the end, the 200s of the path are the operations. -/
theorem posted_ok_eq {core : ProcessService.Phase} {phase : Phase} (h : PhaseRight service core i phase)
    (hover : phase.isOver = true) :
    posted service i phase (.httpRequests "POST".toList "/process".toList 200) =
      posted service i phase (.operations .mask) + posted service i phase (.operations .demask) := by
  cases phase with
  | rejected => rfl
  | answered outcome =>
    rw [posted_http, posted_operation, posted_operation]
    have hlabels := Ended.labels_iff h
    cases hoperation : outcome.operation? with
    | none =>
      rw [hoperation] at hlabels
      rw [if_neg fun hok => absurd (hlabels.mp hok) (by simp)]
      rfl
    | some operation =>
      rw [hoperation] at hlabels
      rw [if_pos (hlabels.mpr rfl)]
      cases operation <;> rfl
  | arriving | admitted | entered | running | recording => cases hover

/-- The 200 of a request is counted after its operation. -/
theorem posted_ok_le {core : ProcessService.Phase} {phase : Phase} (h : PhaseRight service core i phase) :
    posted service i phase (.httpRequests "POST".toList "/process".toList 200) ≤
      posted service i phase (.operations .mask) + posted service i phase (.operations .demask) := by
  have henter : ∀ (l : List Metrics) (x : Series), x ≠ .inflightRequests → (Metrics.enter + l.sum) x = l.sum x := by
    intro l x hx
    simp [Metrics.enter, hx]
  cases phase with
  | arriving | admitted | rejected => exact le_refl 0
  | entered | running => simp [posted, Metrics.enter]
  | answered outcome => exact le_of_eq (posted_ok_eq h rfl)
  | recording outcome written =>
    have hwrites := fun {x : Series} (hx : x ≠ .inflightRequests) => writes_nonneg service i outcome hx
    have hmask := sum_take_mono (hwrites (x := .operations .mask) (by simp)) written
    have hdemask := sum_take_mono (hwrites (x := .operations .demask) (by simp)) written
    have hhttp := sum_take_mono (hwrites (x := .httpRequests "POST".toList "/process".toList 200) (by simp)) written
    have htotal := posted_http service i outcome "POST".toList "/process".toList 200
    rw [posted, henter _ _ (by simp)] at htotal
    rw [posted, henter _ _ (by simp), henter _ _ (by simp), henter _ _ (by simp)]
    by_cases hok : labels service i outcome = ("POST".toList, "/process".toList, 200)
    · rw [if_pos hok] at htotal
      -- The operation is the first write.
      cases outcome with
      | processed out prepared =>
        cases written with
        | zero => exact le_refl 0
        | succ written =>
          have hrest := (sum_take_mono (l := (service.writes i (.processed out prepared)).tail)
            (x := .operations out.operation) (fun w hw => hwrites (by simp) w (List.mem_of_mem_tail hw)) written).1
          have hwritten : ((service.writes i (.processed out prepared)).take (written + 1)).sum
              (.operations out.operation) = Metrics.inc (.operations out.operation) 1 (.operations out.operation) +
                (((service.writes i (.processed out prepared)).tail).take written).sum (.operations out.operation) := rfl
          rw [inc_apply, if_pos rfl] at hwritten
          cases hoperation : out.operation with
          | mask =>
            rw [hoperation] at hrest hwritten
            omega
          | demask =>
            rw [hoperation] at hrest hwritten
            omega
      | invalidBody | raised | health | ready | scraped | unrouted => cases (Ended.labels_iff h).mp hok
    · rw [if_neg hok] at htotal
      omega

variable [DecidableEq ι]

/-- A step writes what the request's next phase has more. -/
theorem Step.posted (hstep : Step service s s') :
    ∃ i phase, s'.phase = Function.update s.phase i phase ∧
      s'.metrics + posted service i (s.phase i) = s.metrics + posted service i phase := by
  cases hstep with
  | @limit i t hi hlimited hclock =>
    refine ⟨i, _, phase_limit s i t, ?_⟩
    rw [hi]
    split <;> rfl
  | @pass i hi hlimited => exact ⟨i, _, rfl, by rw [hi]; rfl⟩
  | @enter i hi =>
    refine ⟨i, _, rfl, ?_⟩
    rw [hi]
    exact add_zero _
  | @respond i outcome hi himmediate => exact ⟨i, _, rfl, by rw [hi]; simp [Http.posted]⟩
  | @unready i e hi hendpoint hpolicy => exact ⟨i, _, rfl, by rw [hi]; simp [Http.posted]⟩
  | @probe i policy now found store hi hendpoint hpolicy hget => exact ⟨i, _, rfl, by rw [hi]; simp [Http.posted]⟩
  | @scrape i hi hendpoint => exact ⟨i, _, rfl, by rw [hi]; simp [Http.posted]⟩
  | @start i request hi hcall => exact ⟨i, _, rfl, by rw [hi]; rfl⟩
  | @call i prepared readings core hi hstep hne => exact ⟨i, _, rfl, by rw [hi]; rfl⟩
  | @finish i prepared answer hi hdone => exact ⟨i, _, rfl, by rw [hi]; simp [Http.posted]⟩
  | @record i outcome written samples hi hsamples =>
    refine ⟨i, _, rfl, ?_⟩
    rw [hi, Http.posted, Http.posted, List.take_add_one, hsamples, Option.toList_some, List.sum_append, List.sum_singleton,
      metrics_moveTo, metrics_write]
    abel
  | @answer i outcome written hi hlength =>
    refine ⟨i, _, rfl, ?_⟩
    rw [hi, Http.posted, Http.posted, List.take_of_length_le hlength]
    rfl

/-- What any number of steps preserves. -/
theorem metrics_eq [Fintype ι] {store : InMemoryRestorationStore codec} {clock : Time} {limiter : SlidingWindowRateLimiter}
    (hsteps : Relation.ReflTransGen (Step service) (System.start ι clock limiter store) s) :
    s.metrics = Parties.total (posted service) s.phase := by
  induction hsteps with
  | refl => exact (Finset.sum_const_zero).symm
  | tail _ hstep ih =>
    obtain ⟨i, phase, hphase, hmetrics⟩ := hstep.posted
    rw [hphase]
    exact Parties.balanced_update ih hmetrics

section Registry
variable [Fintype ι] {clock : Time} {limiter : SlidingWindowRateLimiter} {ttlSeconds maxEntries : Int}
  (hsteps : Relation.ReflTransGen (Step service)
    (System.start ι clock limiter (InMemoryRestorationStore.new codec ttlSeconds maxEntries)) s)
include hsteps

theorem metrics_apply (x : Series) : s.metrics x = ∑ i, posted service i (s.phase i) x := by
  rw [metrics_eq hsteps]
  exact Finset.sum_apply x _ _

theorem metrics_count {p : ι → Prop} [DecidablePred p] {x : Series}
    (h : ∀ i, posted service i (s.phase i) x = if p i then 1 else 0) : s.metrics x = (Finset.univ.filter p).card := by
  rw [metrics_apply hsteps, Finset.natCast_card_filter]
  exact Finset.sum_congr rfl fun i _ => h i

theorem gauge_eq : s.metrics .inflightRequests = (Finset.univ.filter fun i => inFlight service i (s.phase i) = true).card :=
  metrics_count hsteps fun i => posted_inflight service i _

theorem ok_le : s.metrics (.httpRequests "POST".toList "/process".toList 200) ≤
    s.metrics (.operations .mask) + s.metrics (.operations .demask) := by
  obtain ⟨hinv, -⟩ := (Inv.start service clock limiter rfl).steps hsteps
  rw [metrics_apply hsteps, metrics_apply hsteps, metrics_apply hsteps, ← Finset.sum_add_distrib]
  exact Finset.sum_le_sum fun i _ => posted_ok_le (hinv.phase i)

end Registry

/-- No step lowers a counter. -/
theorem Step.metrics_mono (hstep : Step service s s') {x : Series} (hx : x ≠ .inflightRequests) :
    s.metrics x ≤ s'.metrics x := by
  have hwrite : ∀ {w : Metrics}, 0 ≤ w x → s.metrics x ≤ (s.metrics + w) x := fun hw => le_add_of_nonneg_right hw
  cases hstep with
  | enter => exact hwrite (by simp [Metrics.enter, hx])
  | @record i outcome written samples hi hsamples =>
    exact hwrite (writes_nonneg service i outcome hx samples (List.mem_of_getElem? hsamples))
  | limit | pass | respond | unready | probe | scrape | start | call | finish | answer => exact le_refl _

/-- What a request has read of the registry. -/
def Phase.snapshot? : Phase → Option Metrics
  | recording (.scraped snapshot) _ | answered (.scraped snapshot) => some snapshot
  | _ => none

/-- A step leaves the snapshots that there are, or the request reads the registry. -/
theorem Step.snapshot (hstep : Step service s s') {snapshot : Metrics} (h : (s'.phase i).snapshot? = some snapshot) :
    (s.phase i).snapshot? = some snapshot ∨ s.phase i = .entered ∧ snapshot = s.metrics := by
  have hmove : ∀ {j : ι} {phase : Phase}, s'.phase = Function.update s.phase j phase →
      (phase.snapshot? = some snapshot →
        (s.phase j).snapshot? = some snapshot ∨ s.phase j = .entered ∧ snapshot = s.metrics) →
      (s.phase i).snapshot? = some snapshot ∨ s.phase i = .entered ∧ snapshot = s.metrics := by
    intro j phase hphase hown
    rw [hphase] at h
    by_cases hij : i = j
    · subst hij
      rw [Function.update_self] at h
      exact hown h
    · rw [Function.update_of_ne hij] at h
      exact Or.inl h
  cases hstep with
  | @limit i t hi hlimited hclock =>
    refine hmove (phase_limit s i t) fun h => ?_
    split at h <;> cases h
  | @pass i hi hlimited => exact hmove rfl (by rintro ⟨⟩)
  | @enter i hi => exact hmove rfl (by rintro ⟨⟩)
  | @respond i outcome hi himmediate =>
    refine hmove rfl fun h => ?_
    rcases immediate_cases himmediate with (rfl | ⟨e, rfl, -⟩) | ⟨rfl, -⟩ | ⟨method, path, rfl, -⟩ |
      ⟨method, path, statusCode, rfl, -⟩
    all_goals cases h
  | @unready i e hi hendpoint hpolicy => exact hmove rfl (by rintro ⟨⟩)
  | @probe i policy now found store hi hendpoint hpolicy hget => exact hmove rfl (by rintro ⟨⟩)
  | @scrape i hi hendpoint => exact hmove rfl fun h => Or.inr ⟨hi, (Option.some.inj h).symm⟩
  | @start i request hi hcall => exact hmove rfl (by rintro ⟨⟩)
  | @call i prepared readings core hi hstep hne => exact hmove rfl (by rintro ⟨⟩)
  | @finish i prepared answer hi hdone =>
    refine hmove rfl fun h => ?_
    cases answer <;> cases h
  | @record i outcome written samples hi hsamples => exact hmove rfl fun h => Or.inl (by rw [hi, ← h]; cases outcome <;> rfl)
  | @answer i outcome written hi hlength => exact hmove rfl fun h => Or.inl (by rw [hi, ← h]; cases outcome <;> rfl)

/-- A registry that counts the request that reads it, and no 200 without its operation; the counters have only grown
    since. -/
structure Consistent (snapshot now : Metrics) : Prop where
  itself : 1 ≤ snapshot .inflightRequests
  ok_le : snapshot (.httpRequests "POST".toList "/process".toList 200) ≤
    snapshot (.operations .mask) + snapshot (.operations .demask)
  grown : ∀ x, x ≠ .inflightRequests → snapshot x ≤ now x

/-- Whatever the interleaving, a scrape of `/metrics` is consistent. -/
theorem scrape_consistent [Fintype ι] (service : Service ι) (clock : Time) (limiter : SlidingWindowRateLimiter)
    (ttlSeconds maxEntries : Int) (s : System codec ι)
    (hsteps : Relation.ReflTransGen (Step service)
      (System.start ι clock limiter (InMemoryRestorationStore.new codec ttlSeconds maxEntries)) s)
    (i : ι) (snapshot : Metrics) (hsnapshot : (s.phase i).snapshot? = some snapshot) : Consistent snapshot s.metrics := by
  induction hsteps generalizing i snapshot with
  | refl => cases hsnapshot
  | @tail s s' hsteps hstep ih =>
    -- A snapshot that was there stays consistent, as counters do not fall.
    have hkept : ∀ {i snapshot}, (s.phase i).snapshot? = some snapshot → Consistent snapshot s'.metrics := by
      intro i snapshot h
      have hbefore := ih i snapshot h
      exact { hbefore with grown := fun x hx => le_trans (hbefore.grown x hx) (hstep.metrics_mono hx) }
    rcases hstep.snapshot hsnapshot with hsnapshot | ⟨hi, rfl⟩
    · exact hkept hsnapshot
    · refine ⟨?_, ok_le hsteps, fun x hx => hstep.metrics_mono hx⟩
      have hcounted : i ∈ Finset.univ.filter fun i => inFlight service i (s.phase i) = true := by
        rw [Finset.mem_filter, hi]
        exact ⟨Finset.mem_univ i, rfl⟩
      rw [gauge_eq hsteps]
      exact_mod_cast Finset.card_pos.mpr ⟨i, hcounted⟩

/-- One request, for the registry. -/
def scrapeService : Service Unit where
  digests := Digests.plain
  around _ := ProcessService.emailOnly
  stripe _ := 0
  provider := FilePolicyProvider.empty
  defaultConsumerId := "default".toList
  request _ := { endpoint := .metrics }
  uuid4 _ := "00000000-0000-4000-8000-000000000000".toList

/-- It sees itself. -/
theorem scrape_consistent_example : ∃ (s : System Codec.plain Unit) (snapshot : Metrics),
    (s.phase ()).snapshot? = some snapshot ∧ Consistent snapshot s.metrics := by
  let start : System Codec.plain Unit := System.start Unit 0 (.new 2 1) (InMemoryRestorationStore.new Codec.plain 60 10)
  have hsteps : Relation.ReflTransGen (Step scrapeService) start _ :=
    ((Relation.ReflTransGen.single (.pass (i := ()) rfl rfl)).tail (.enter (i := ()) rfl)).tail (.scrape (i := ()) rfl rfl)
  exact ⟨_, _, rfl, scrape_consistent scrapeService 0 (.new 2 1) 60 10 _ hsteps () _ rfl⟩

end

end PiiProxy.Http
