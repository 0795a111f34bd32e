import Mathlib.Data.List.Nodup
import PiiProxy.Lib.Parties
import PiiProxy.Scripts.Locustfile
import PiiProxy.Theorems.FalsePass

/-! # When the counters of a load test reconcile

Each request adds to one status bucket, unless an exception comes after its status has been counted: then it adds to two.
In the main profile a mask without a demask is an incomplete pair, and so is a demask with a wrong result, which has been
counted as a demask before. -/

namespace PiiProxy.Locustfile
open RunPerformance (Reconciled count required)

/-! ### What a request comes to -/

section
variable (e : Call × Option Response)

/-- An exception came after a counter had been bumped for the status. -/
def late : Bool := e.2.isSome && (post e.1 e.2).mark matches .raised

/-- Locust is told of a failure, or sees an exception. -/
def failed : Bool := (post e.1 e.2).mark matches .failure _ | .raised

def answered : Bool := e.2.any fun r => r.statusCode == 200

def answeredAs (kind : Kind) : Bool := answered e && decide (e.1.kind = kind)

/-- An answer that is not what the call expects. -/
def wrongAs (kind : Kind) : Bool := answeredAs e kind && (post e.1 e.2).result.isNone

end

/-- The only status that a call expects, beside a success, is that of a conflict. -/
def Call.Plain (c : Call) : Prop := ∀ status ∈ c.expectedStatuses, status = 422

section
variable {c : Call} {reply : Option Response}

theorem accepted_cases (c : Call) (r : Response) :
    (accepted c r).bumps = [.http2xx, c.kind.counter, .transportErrors] ∧ (accepted c r).mark = .raised ∧
        (accepted c r).result = none ∨
      ((accepted c r).bumps = [.http2xx, c.kind.counter, .functionalErrors] ∧ ∃ message,
        (accepted c r).mark = .failure message) ∧ (accepted c r).result = none ∨
      (accepted c r).bumps = [.http2xx, c.kind.counter] ∧ (accepted c r).mark = .unmarked ∧
        ∃ result, (accepted c r).result = some result := by
  unfold accepted
  dsimp only
  split
  · exact Or.inl ⟨rfl, rfl, rfl⟩
  · exact Or.inr (Or.inl ⟨⟨rfl, _, rfl⟩, rfl⟩)
  · split
    · exact Or.inr (Or.inl ⟨⟨rfl, _, rfl⟩, rfl⟩)
    · split
      · exact Or.inr (Or.inl ⟨⟨rfl, _, rfl⟩, rfl⟩)
      · exact Or.inr (Or.inr ⟨rfl, rfl, _, rfl⟩)

theorem expected_cases (c : Call) {r : Response} (h : r.statusCode = 422) :
    (expected c r).result = none ∧ ((expected c r).bumps = [.http422] ∧ (expected c r).mark = .success ∨
      (expected c r).bumps = [.http422, .transportErrors] ∧ (expected c r).mark = .raised ∨
      (expected c r).bumps = [.http422, .functionalErrors] ∧ ∃ message, (expected c r).mark = .failure message) := by
  unfold expected
  rw [h, show statusCounter 422 = some .http422 from rfl]
  dsimp only
  split
  · exact ⟨rfl, Or.inl ⟨rfl, rfl⟩⟩
  · split
    · exact ⟨rfl, Or.inr (Or.inl ⟨rfl, rfl⟩)⟩
    · exact ⟨rfl, Or.inr (Or.inr ⟨rfl, _, rfl⟩)⟩
    · split
      · exact ⟨rfl, Or.inl ⟨rfl, rfl⟩⟩
      · exact ⟨rfl, Or.inr (Or.inr ⟨rfl, _, rfl⟩)⟩

/-- What a request that is not answered with 200 adds, and what one that is. -/
theorem post_cases (hc : c.Plain) (reply : Option Response) :
    reply = none ∧ post c reply = ⟨[.transportErrors], none, .raised⟩ ∨
      (∃ r, reply = some r ∧ r.statusCode ≠ 200 ∧ (post c reply).result = none ∧
        ∃ bucket ∈ [Counter.http429, .http422, .httpOther],
          (post c reply).bumps = [bucket] ∧ (post c reply).mark = .success ∨
          (post c reply).bumps = [bucket, .transportErrors] ∧ (post c reply).mark = .raised ∨
          (post c reply).bumps = [bucket, .functionalErrors] ∧ ∃ message, (post c reply).mark = .failure message) ∨
      ∃ r, reply = some r ∧ r.statusCode = 200 ∧ post c reply = accepted c r := by
  rcases reply with _ | r
  · exact Or.inl ⟨rfl, rfl⟩
  refine Or.inr ?_
  unfold post
  dsimp only
  by_cases hbusy : r.statusCode = 429
  · refine Or.inl ⟨r, rfl, by omega, ?_⟩
    rw [if_pos hbusy]
    split
    · exact ⟨rfl, .http429, by simp, Or.inr (Or.inr ⟨rfl, _, rfl⟩)⟩
    · exact ⟨rfl, .http429, by simp, Or.inl ⟨rfl, rfl⟩⟩
  · rw [if_neg hbusy]
    by_cases hexpected : c.expectedStatuses.contains r.statusCode = true
    · have hconflict := hc _ (List.contains_iff_mem.mp hexpected)
      obtain ⟨hresult, hbumps⟩ := expected_cases c hconflict
      refine Or.inl ⟨r, rfl, by omega, ?_⟩
      rw [if_pos hexpected]
      exact ⟨hresult, .http422, by simp, hbumps⟩
    · rw [if_neg hexpected]
      by_cases hok : r.statusCode = 200
      · exact Or.inr ⟨r, rfl, hok, if_neg fun h => h hok⟩
      · refine Or.inl ⟨r, rfl, hok, ?_⟩
        rw [if_pos hok]
        exact ⟨rfl, .httpOther, by simp, Or.inr (Or.inr ⟨rfl, _, rfl⟩)⟩

/-- What a request adds to the counters. -/
structure Adds (e : Call × Option Response) (keys : List Counter) : Prop where
  buckets : keys.count .http2xx + keys.count .http429 + keys.count .http422 + keys.count .httpOther +
    keys.count .transportErrors = 1 + (late e).toNat
  kinds : keys.count .maskRequests + keys.count .demaskRequests = keys.count .http2xx
  masks : keys.count .maskRequests = (answeredAs e .mask).toNat
  demasks : keys.count .demaskRequests = (answeredAs e .demask).toNat
  errors : keys.count .functionalErrors + keys.count .transportErrors = (failed e).toNat
  incomplete : keys.count .incompleteRoundtrips = 0

theorem post_adds (hc : c.Plain) (reply : Option Response) : Adds (c, reply) (post c reply).bumps := by
  rcases post_cases hc reply with ⟨rfl, hpost⟩ | ⟨r, rfl, hstatus, -, bucket, hbucket, hbumps⟩ | ⟨r, rfl, hstatus, hpost⟩
  · rw [hpost]
    constructor <;> simp [late, failed, answered, answeredAs, hpost]
  · have hanswered : answered (c, some r) = false := by simp [answered, hstatus]
    simp only [List.mem_cons, List.not_mem_nil, or_false] at hbucket
    rcases hbumps with ⟨hbumps, hmark⟩ | ⟨hbumps, hmark⟩ | ⟨hbumps, message, hmark⟩
    all_goals
      rw [hbumps]
      rcases hbucket with rfl | rfl | rfl <;> constructor <;> simp [late, failed, answeredAs, hanswered, hmark]
  · have hanswered : answered (c, some r) = true := by simp [answered, hstatus]
    rw [hpost]
    rcases accepted_cases c r with ⟨hbumps, hmark, -⟩ | ⟨⟨hbumps, message, hmark⟩, -⟩ | ⟨hbumps, hmark, -⟩
    all_goals
      rw [hbumps]
      cases hkind : c.kind <;> constructor <;> simp [late, failed, answeredAs, hanswered, hpost, hmark, hkind, Kind.counter]

end

/-! ### What a run adds -/

theorem bumpAll_apply (m : CustomMetrics) (keys : List Counter) (k : Counter) : bumpAll m keys k = m k + keys.count k := by
  induction keys generalizing m with
  | nil => simp [bumpAll]
  | cons key keys ih =>
    have hfold : bumpAll m (key :: keys) = bumpAll (bump m key) keys := rfl
    rw [hfold, ih, bump, List.count_cons]
    by_cases hk : k = key
    · subst hk
      simp
      omega
    · simp [Function.update_of_ne hk, Ne.symm hk]

/-- The requests of a script are plain, and the only counter that it bumps itself is that of the incomplete pairs. -/
def Script.Plain : Script → Prop
  | .done => True
  | .bump key next => key = .incompleteRoundtrips ∧ next.Plain
  | .post call next => call.Plain ∧ ∀ result, (next result).Plain

theorem Script.Plain.settle {script : Script} (h : script.Plain) :
    script.settle.2.Plain ∧ ∀ key ∈ script.settle.1, key = .incompleteRoundtrips := by
  induction script with
  | done => exact ⟨h, fun key hkey => by cases hkey⟩
  | post call next => exact ⟨h, fun key hkey => by cases hkey⟩
  | bump key next ih =>
    obtain ⟨hkey, hnext⟩ := h
    obtain ⟨hplain, hkeys⟩ := ih hnext
    refine ⟨hplain, fun key' hkey' => ?_⟩
    rcases List.mem_cons.mp hkey' with rfl | hkey'
    · exact hkey
    · exact hkeys key' hkey'

theorem Script.Plain.count_settle {script : Script} (h : script.Plain) {key : Counter}
    (hkey : key ≠ .incompleteRoundtrips) : script.settle.1.count key = 0 :=
  List.count_eq_zero.mpr fun hmem => hkey (h.settle.2 key hmem)

theorem tasks_plain (scenario : Scenario) (chars : Nat) (payloadId : Str) :
    ∀ script ∈ scenario.tasks chars payloadId, script.Plain := by
  have hplain : ∀ {id payload name kind validator}, Call.Plain ⟨id, payload, name, kind, validator, [], none⟩ :=
    fun {_ _ _ _ _} status hstatus => by cases hstatus
  have hconflict : ∀ {id payload name kind validator error},
      Call.Plain ⟨id, payload, name, kind, validator, [422], error⟩ := fun {_ _ _ _ _ _} status hstatus =>
    List.mem_singleton.mp hstatus
  have hround : (scenarioRoundtrip payloadId).Plain := by
    refine ⟨hplain, fun masked => ?_⟩
    rcases masked with _ | masked
    · trivial
    · refine ⟨hplain, fun restored => ?_⟩
      rcases restored with _ | restored
      · exact ⟨rfl, trivial⟩
      · trivial
  have hmaskRetry : (scenarioMaskRetry payloadId).Plain := by
    refine ⟨hplain, fun first => ?_⟩
    rcases first with _ | first
    · trivial
    · exact ⟨hplain, fun _ => trivial⟩
  have hdemaskRetry : (scenarioDemaskRetry payloadId).Plain := by
    refine ⟨hplain, fun masked => ?_⟩
    rcases masked with _ | masked
    · trivial
    · exact ⟨hplain, fun _ => ⟨hplain, fun _ => trivial⟩⟩
  have hduplicate : (scenarioDuplicatePayload payloadId).Plain := by
    refine ⟨hplain, fun first => ?_⟩
    rcases first with _ | first
    · trivial
    · refine ⟨hconflict, fun _ => ⟨hplain, fun second => ?_⟩⟩
      rcases second with _ | second
      · trivial
      · exact ⟨hplain, fun _ => trivial⟩
  have hlarge : (scenarioLargePayload payloadId chars).Plain := by
    refine ⟨hplain, fun masked => ?_⟩
    rcases masked with _ | masked
    · trivial
    · exact ⟨hplain, fun _ => trivial⟩
  cases scenario with
  | maskOnly => exact List.forall_mem_singleton.mpr ⟨hplain, fun _ => trivial⟩
  | roundtrip => exact List.forall_mem_singleton.mpr hround
  | maskRetry => exact List.forall_mem_singleton.mpr hmaskRetry
  | demaskRetry => exact List.forall_mem_singleton.mpr hdemaskRetry
  | duplicatePayload => exact List.forall_mem_singleton.mpr hduplicate
  | largePayload => exact List.forall_mem_singleton.mpr hlarge
  | mixed =>
    exact List.forall_mem_cons.mpr ⟨hround, List.forall_mem_cons.mpr ⟨hmaskRetry, List.forall_mem_cons.mpr
      ⟨hdemaskRetry, List.forall_mem_cons.mpr ⟨hduplicate, List.forall_mem_singleton.mpr hlarge⟩⟩⟩⟩

section
variable {ι : Type} [DecidableEq ι] {scenario : Scenario} {chars : Nat} {s : System ι}

/-- The users have come so far, in some order. -/
def Reachable (scenario : Scenario) (chars : Nat) (s : System ι) : Prop :=
  Relation.ReflTransGen (Step scenario chars) System.initial s

/-- The counters are those of the requests that have come to an end. -/
structure Accounts (s : System ι) : Prop where
  plain : ∀ i, (s.scripts i).Plain
  buckets : s.metrics .http2xx + s.metrics .http429 + s.metrics .http422 + s.metrics .httpOther +
    s.metrics .transportErrors = s.posts.length + s.posts.countP late
  kinds : s.metrics .maskRequests + s.metrics .demaskRequests = s.metrics .http2xx
  masks : s.metrics .maskRequests = s.posts.countP (answeredAs · .mask)
  demasks : s.metrics .demaskRequests = s.posts.countP (answeredAs · .demask)
  errors : s.metrics .functionalErrors + s.metrics .transportErrors = s.posts.countP failed

theorem countP_snoc {α : Type} (p : α → Bool) (l : List α) (a : α) : (l ++ [a]).countP p = l.countP p + (p a).toNat := by
  rw [List.countP_append, List.countP_singleton]
  cases p a <;> rfl

theorem Accounts.step {s' : System ι} (h : Accounts s) (hstep : Step scenario chars s s') : Accounts s' := by
  rcases hstep with ⟨i, payloadId, script, hdone, hscript⟩ | ⟨i, call, next, reply, hpost⟩
  · refine { h with plain := fun j => ?_ }
    rcases eq_or_ne j i with rfl | hj
    · simp only [Function.update_self]
      exact tasks_plain scenario chars payloadId script hscript
    · simp only [Function.update_of_ne hj]
      exact h.plain j
  · obtain ⟨hcall, hnext⟩ : (Script.post call next).Plain := hpost ▸ h.plain i
    have hadds := post_adds hcall reply
    have hsettled := (hnext (post call reply).result).settle.1
    -- The script itself bumps none of these counters.
    have hcount : ∀ key, key ≠ .incompleteRoundtrips →
        ((post call reply).bumps ++ (next (post call reply).result).settle.1).count key =
          (post call reply).bumps.count key := by
      intro key hkey
      rw [List.count_append, (hnext (post call reply).result).count_settle hkey, Nat.add_zero]
    refine ⟨fun j => ?_, ?_, ?_, ?_, ?_, ?_⟩
    · rcases eq_or_ne j i with rfl | hj
      · simp only [Function.update_self]
        exact hsettled
      · simp only [Function.update_of_ne hj]
        exact h.plain j
    · have hbuckets := hadds.buckets
      have hold := h.buckets
      simp only [bumpAll_apply, hcount, ne_eq, reduceCtorEq, not_false_eq_true, countP_snoc, List.length_append,
        List.length_singleton, Nat.cast_add, Nat.cast_one]
      omega
    · have hkinds := hadds.kinds
      have hold := h.kinds
      simp only [bumpAll_apply, hcount, ne_eq, reduceCtorEq, not_false_eq_true]
      omega
    · simp only [bumpAll_apply, hcount, ne_eq, reduceCtorEq, not_false_eq_true, countP_snoc, Nat.cast_add, h.masks,
        hadds.masks]
    · simp only [bumpAll_apply, hcount, ne_eq, reduceCtorEq, not_false_eq_true, countP_snoc, Nat.cast_add, h.demasks,
        hadds.demasks]
    · have herrors := hadds.errors
      have hold := h.errors
      simp only [bumpAll_apply, hcount, ne_eq, reduceCtorEq, not_false_eq_true, countP_snoc, Nat.cast_add]
      omega

theorem accounts (h : Reachable scenario chars s) : Accounts s := by
  induction h with
  | refl => exact ⟨fun i => trivial, rfl, rfl, rfl, rfl, rfl⟩
  | tail _ hstep ih => exact ih.step hstep

/-! ### The main profile -/

/-- The user has a mask and waits for its demask. -/
def Script.pending : Script → Int
  | .post call _ => if call.kind = .demask then 1 else 0
  | _ => 0

/-- The scripts of the main profile. -/
def Halfway (script : Script) : Prop :=
  script = .done ∨ (∃ payloadId, script = scenarioRoundtrip payloadId) ∨
    ∃ payloadId masked, script = roundtripDemask payloadId masked

variable [Fintype ι]

/-- A mask is followed by a demask, or by an incomplete pair, or is wrong, or has its demask before it. A wrong demask is
    counted twice. -/
structure Pairs (s : System ι) : Prop where
  halfway : ∀ i, Halfway (s.scripts i)
  incomplete : 0 ≤ s.metrics .incompleteRoundtrips
  paired : s.metrics .maskRequests + s.posts.countP (wrongAs · .demask) = s.metrics .demaskRequests +
    s.metrics .incompleteRoundtrips + s.posts.countP (wrongAs · .mask) +
      Parties.total (fun _ => Script.pending) s.scripts

/-- An answered request has a result, or it is wrong. -/
theorem answeredAs_eq {c : Call} (hc : c.Plain) (reply : Option Response) :
    (answeredAs (c, reply) c.kind).toNat = (post c reply).result.isSome.toNat + (wrongAs (c, reply) c.kind).toNat := by
  have hnone : answered (c, reply) = false → (post c reply).result = none → (answeredAs (c, reply) c.kind).toNat =
      (post c reply).result.isSome.toNat + (wrongAs (c, reply) c.kind).toNat := by
    intro hanswered hresult
    simp [wrongAs, answeredAs, hanswered, hresult]
  rcases post_cases hc reply with ⟨rfl, hpost⟩ | ⟨r, rfl, hstatus, hresult, -⟩ | ⟨r, rfl, hstatus, -⟩
  · exact hnone rfl (by rw [hpost])
  · exact hnone (by simp [answered, hstatus]) hresult
  · cases hresult : (post c (some r)).result <;> simp [wrongAs, answeredAs, answered, hstatus, hresult]

/-- What one reply adds to either side. -/
theorem halfway_reply {call : Call} {next : Option Str → Script} (h : Halfway (.post call next)) (hcall : call.Plain)
    (reply : Option Response) :
    Halfway (next (post call reply).result).settle.2 ∧
      ((post call reply).bumps.count .maskRequests : Int) + (wrongAs (call, reply) .demask).toNat +
          (Script.post call next).pending =
        (post call reply).bumps.count .demaskRequests +
          (next (post call reply).result).settle.1.count .incompleteRoundtrips + (wrongAs (call, reply) .mask).toNat +
            (next (post call reply).result).settle.2.pending := by
  rcases h with hdone | ⟨payloadId, hmask⟩ | ⟨payloadId, masked, hdemask⟩
  · cases hdone
  · obtain ⟨rfl, rfl⟩ := Script.post.inj hmask
    have hadds := post_adds hcall reply
    have hanswered := answeredAs_eq hcall reply
    have hkind : (maskCall payloadId original).kind = .mask := rfl
    have hwrong : wrongAs (maskCall payloadId original, reply) .demask = false := by simp [wrongAs, answeredAs, hkind]
    have hdemasks : answeredAs (maskCall payloadId original, reply) .demask = false := by simp [answeredAs, hkind]
    rw [hkind] at hanswered
    rw [hadds.masks, hadds.demasks, hwrong, hdemasks, hanswered]
    cases hresult : (post (maskCall payloadId original) reply).result with
    | none => exact ⟨Or.inl rfl, by simp [Script.settle, Script.pending, hkind]⟩
    | some masked =>
      refine ⟨Or.inr (Or.inr ⟨payloadId, masked, rfl⟩), ?_⟩
      simp [Script.settle, Script.pending, hkind, roundtripDemask, demaskCall]
      omega
  · obtain ⟨rfl, rfl⟩ := Script.post.inj hdemask
    have hadds := post_adds hcall reply
    have hanswered := answeredAs_eq hcall reply
    have hkind : (demaskCall payloadId masked original "POST /process [demask]").kind = .demask := rfl
    generalize demaskCall payloadId masked original "POST /process [demask]" = call at *
    have hwrong : wrongAs (call, reply) .mask = false := by simp [wrongAs, answeredAs, hkind]
    have hmasks : answeredAs (call, reply) .mask = false := by simp [answeredAs, hkind]
    rw [hkind] at hanswered
    rw [hadds.masks, hadds.demasks, hwrong, hmasks, hanswered]
    cases hresult : (post call reply).result with
    | none => exact ⟨Or.inl rfl, by simp [Script.settle, Script.pending, hkind]⟩
    | some restored =>
      refine ⟨Or.inl rfl, ?_⟩
      simp [Script.settle, Script.pending, hkind]
      omega

theorem Pairs.step {s' : System ι} (h : Pairs s) (haccounts : Accounts s) (hstep : Step .roundtrip chars s s') : Pairs s' := by
  have hhalfway : ∀ i script, Halfway script → ∀ j, Halfway (Function.update s.scripts i script j) := by
    intro i script hscript j
    rcases eq_or_ne j i with rfl | hj
    · rw [Function.update_self]
      exact hscript
    · rw [Function.update_of_ne hj]
      exact h.halfway j
  rcases hstep with ⟨i, payloadId, script, hdone, hscript⟩ | ⟨i, call, next, reply, hpost⟩
  · obtain rfl : script = scenarioRoundtrip payloadId := List.mem_singleton.mp hscript
    refine ⟨hhalfway i _ (Or.inr (Or.inl ⟨payloadId, rfl⟩)), h.incomplete, ?_⟩
    have htotal := Parties.total_update (fun _ => Script.pending) s.scripts i (scenarioRoundtrip payloadId)
    have hold := h.paired
    rw [hdone] at htotal
    have hpending : (scenarioRoundtrip payloadId).pending = 0 := rfl
    have hidle : Script.done.pending = 0 := rfl
    rw [hpending, hidle, add_zero, add_zero] at htotal
    rw [htotal]
    exact hold
  · obtain ⟨hcall, hnext⟩ : (Script.post call next).Plain := hpost ▸ haccounts.plain i
    obtain ⟨hafter, hbalance⟩ := halfway_reply (hpost ▸ h.halfway i) hcall reply
    have hincomplete := h.incomplete
    have hbumped : 0 ≤ bumpAll s.metrics ((post call reply).bumps ++ (next (post call reply).result).settle.1)
        .incompleteRoundtrips := by
      rw [bumpAll_apply]
      omega
    refine ⟨hhalfway i _ hafter, hbumped, ?_⟩
    have htotal := Parties.total_update (fun _ => Script.pending) s.scripts i (next (post call reply).result).settle.2
    have hold := h.paired
    have hadds := post_adds hcall reply
    have hown : ∀ key, key ≠ .incompleteRoundtrips → (next (post call reply).result).settle.1.count key = 0 := fun key =>
      (hnext (post call reply).result).count_settle
    rw [hpost] at htotal
    simp only [bumpAll_apply, List.count_append, countP_snoc, Nat.cast_add, hadds.incomplete, hown, ne_eq, reduceCtorEq,
      not_false_eq_true]
    omega

theorem pairs (h : Reachable .roundtrip chars s) : Pairs s := by
  induction h with
  | refl =>
    refine ⟨fun i => Or.inl rfl, Int.le_refl 0, ?_⟩
    rw [show Parties.total (fun _ => Script.pending) (System.initial (ι := ι)).scripts = 0 from Finset.sum_const_zero]
    rfl
  | tail hsteps hstep ih => exact ih.step (accounts hsteps) hstep

end

/-! ### The file -/

section
variable {F : Type} (settings : Settings F) (m : CustomMetrics)

theorem get?_readCustomMetrics (data : OrderedDict Str (Entry F)) (key : Str) :
    (readCustomMetrics data).get? key = (data.get? key).bind Entry.int? := by
  have hkeys : ((data.entries.filterMap fun e => e.2.int?.map fun n => (e.1, n)).map Prod.fst).Nodup := by
    have hsub : ∀ l : List (Str × Entry F),
        ((l.filterMap fun e => e.2.int?.map fun n => (e.1, n)).map Prod.fst).Sublist (l.map Prod.fst) := by
      intro l
      induction l with
      | nil => exact .slnil
      | cons e l ih =>
        obtain ⟨k, entry⟩ := e
        cases entry with
        | int n => exact ih.cons_cons k
        | float x => exact ih.cons k
        | text s => exact ih.cons k
    exact data.nodup.sublist (hsub data.entries)
  have hmem : ∀ n, (readCustomMetrics data).get? key = some n ↔ (data.get? key).bind Entry.int? = some n := by
    intro n
    rw [readCustomMetrics, OrderedDict.get?_eq_some, OrderedDict.entries_ofList hkeys, List.mem_filterMap,
      Option.bind_eq_some_iff]
    constructor
    · rintro ⟨⟨key', entry⟩, hentry, hint⟩
      obtain ⟨n', hn, heq⟩ := Option.map_eq_some_iff.mp hint
      obtain ⟨rfl, rfl⟩ := Prod.mk.inj heq
      exact ⟨entry, OrderedDict.get?_eq_some.mpr hentry, hn⟩
    · rintro ⟨entry, hentry, hint⟩
      exact ⟨(key, entry), OrderedDict.get?_eq_some.mp hentry, by rw [hint]; rfl⟩
  exact Option.ext hmem

/-- The counters of the file. -/
def written : CustomMetrics := fun c =>
  if settings.scenario = .roundtrip ∧ c = .incompleteRoundtrips then reconciledIncomplete m else m c

theorem Counter.key_inj {c c' : Counter} (h : c.key = c'.key) : c = c' := by
  have hnodup : (counters.map Counter.key).Nodup := by decide
  have hmem : ∀ c, c ∈ counters := fun c => by cases c <;> simp [counters]
  exact List.inj_on_of_nodup_map hnodup (hmem c) (hmem c') h

theorem get?_write (c : Counter) : (writeCustomMetrics settings m).get? c.key = some (.int (written settings m c)) := by
  have hother : ∀ name ∈ ["scenario", "total_http_requests", "profile", "profile_duration_seconds", "profile_max_users",
      "target_average_rps", "target_rps", "users"], c.key ≠ String.toList name := by
    cases c <;> decide
  simp only [List.forall_mem_cons, List.not_mem_nil, false_implies, implies_true, and_true] at hother
  obtain ⟨h1, h2, h3, h4, h5, h6, h7, h8⟩ := hother
  have hcounters : (OrderedDict.ofList (counters.map fun c => (c.key, (Entry.int (m c) : Entry F)))).get? c.key =
      some (.int (m c)) := by
    have hnodup : ((counters.map fun c => (c.key, (Entry.int (m c) : Entry F))).map Prod.fst).Nodup := by
      rw [List.map_map]
      exact (by decide : (counters.map Counter.key).Nodup)
    rw [OrderedDict.get?_eq_some, OrderedDict.entries_ofList hnodup, List.mem_map]
    exact ⟨c, by cases c <;> simp [counters], rfl⟩
  have hincomplete : ∀ d : OrderedDict Str (Entry F), d.get? c.key = some (.int (m c)) →
      (if settings.scenario = .roundtrip then
        d.set Counter.incompleteRoundtrips.key (.int (reconciledIncomplete m)) else d).get? c.key =
          some (.int (written settings m c)) := by
    intro d hd
    rw [written]
    split
    · rename_i hscenario
      rw [OrderedDict.get?_set]
      by_cases hc : c = .incompleteRoundtrips
      · rw [if_pos (congrArg Counter.key hc), if_pos ⟨hscenario, hc⟩]
      · rw [if_neg fun h => hc (Counter.key_inj h), if_neg fun h => hc h.2]
        exact hd
    · rename_i hscenario
      rw [if_neg fun h => hscenario h.1]
      exact hd
  have hsnapshot := hincomplete _ hcounters
  unfold writeCustomMetrics
  dsimp only
  split
  · split
    · simp only [OrderedDict.get?_set, h1, h2, h3, h4, h5, h6, if_false]
      exact hsnapshot
    · simp only [OrderedDict.get?_set, h1, h2, h3, h4, h5, if_false]
      exact hsnapshot
  · simp only [OrderedDict.get?_set, h1, h2, h7, h8, if_false]
    exact hsnapshot

/-- The counter that the runner reads. -/
theorem get?_read (c : Counter) :
    (readCustomMetrics (writeCustomMetrics settings m)).get? c.key = some (written settings m c) := by
  rw [get?_readCustomMetrics, get?_write]
  rfl

theorem count_read (c : Counter) {key : String} (hkey : key.toList = c.key) :
    count (readCustomMetrics (writeCustomMetrics settings m)) key = written settings m c := by
  rw [count, hkey, get?_read]
  rfl

theorem written_of_ne {c : Counter} (hc : c ≠ .incompleteRoundtrips) : written settings m c = m c :=
  if_neg fun h => hc h.2

theorem contains_read : ∀ key ∈ required settings.scenario.name,
    (readCustomMetrics (writeCustomMetrics settings m)).contains key = true := by
  have hcounter : ∀ c : Counter, (readCustomMetrics (writeCustomMetrics settings m)).contains c.key = true := by
    intro c
    rw [OrderedDict.contains, get?_read]
    rfl
  intro key hkey
  have hmem : key ∈ counters.map Counter.key := by
    rw [required, List.mem_append] at hkey
    rcases hkey with hkey | hkey
    · simp only [List.map_cons, List.map_nil, List.mem_cons, List.not_mem_nil, or_false] at hkey
      rcases hkey with rfl | rfl | rfl | rfl | rfl | rfl | rfl | rfl <;> decide
    · split at hkey
      · rw [List.mem_singleton.mp hkey]
        decide
      · cases hkey
  obtain ⟨c, -, rfl⟩ := List.mem_map.mp hmem
  exact hcounter c

end

section
variable {ι : Type} [Fintype ι] {F : Type} {s : System ι}

/-- The users that have a mask and wait for its demask. -/
def waiting (s : System ι) : Int := Parties.total (fun _ => Script.pending) s.scripts

/-- The reconciliation of the written pairs. -/
theorem paired_iff (h : Pairs s) :
    s.metrics .maskRequests = s.metrics .demaskRequests + reconciledIncomplete s.metrics ↔
      (s.posts.countP (wrongAs · .demask) : Int) ≤ s.posts.countP (wrongAs · .mask) + waiting s := by
  have hpaired := h.paired
  have hnonneg := h.incomplete
  unfold reconciledIncomplete waiting
  dsimp only
  split
  · omega
  · omega

end

/-- The answer with a text as the result. -/
def answer (text : Str) : Option Response := some ⟨200, none, .value (.obj [("result".toList, .str text)])⟩

theorem post_answer {c : Call} {text : Str} (hstatuses : c.expectedStatuses = [])
    (hvalid : (c.validator.bind fun validate => validate text) = none) :
    post c (answer text) = ⟨[.http2xx, c.kind.counter], some text, .unmarked⟩ := by
  simp [answer, post, hstatuses, accepted, parseJsonObject, textOf, hvalid]

theorem mask_answered (payload : Str) : post (maskCall [] payload) (answer ['*']) =
    ⟨[.http2xx, .maskRequests], some ['*'], .unmarked⟩ :=
  post_answer rfl (show maskValidator ['*'] = none by decide)

theorem demask_answered (masked text : Str) (name : String) : post (demaskCall [] masked text name) (answer text) =
    ⟨[.http2xx, .demaskRequests], some text, .unmarked⟩ :=
  post_answer rfl (if_neg (not_not_intro rfl))

theorem plain_of_unmarked {e : Call × Option Response} (h : (post e.1 e.2).mark = .unmarked) :
    late e = false ∧ failed e = false := by
  simp [late, failed, h]

/-- A user that makes one roundtrip. -/
theorem one_roundtrip : ∃ s : System Unit, Reachable .roundtrip 100 s ∧ s.scripts = (fun _ => .done) ∧
    s.posts = [(maskCall [] original, answer ['*']),
      (demaskCall [] ['*'] original "POST /process [demask]", answer original)] := by
  have hstart : Step .roundtrip 100 (System.initial (ι := Unit)) _ :=
    .start () [] (scenarioRoundtrip []) rfl (List.mem_singleton_self _)
  refine ⟨_, (((Relation.ReflTransGen.refl.tail hstart).tail
    (.reply () (maskCall [] original) (fun masked => masked.elim .done (roundtripDemask [])) (answer ['*']) rfl)).tail
      (.reply () (demaskCall [] ['*'] original "POST /process [demask]")
        (fun restored => if restored.isNone then .bump .incompleteRoundtrips .done else .done) (answer original) ?_)), ?_, rfl⟩
  · simp only [Function.update_self, mask_answered]
    rfl
  · funext i
    simp only [Function.update_self, demask_answered]
    rfl

end PiiProxy.Locustfile
