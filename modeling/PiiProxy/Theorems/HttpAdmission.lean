import PiiProxy.Theorems.HttpService
import PiiProxy.Theorems.RateLimit

/-! # The load that the limiter lets through

Of the requests to `/process` that come in a window of time, whatever the interleaving, no more than the limit get
into the application, and none is turned away below it. -/

namespace PiiProxy.Http
open Api SlidingWindow

section
variable {codec : Codec} {ι : Type} {service : Service ι} {s s' : System codec ι} {i : ι} {maxRequests : Int}
  {windowSeconds t : Time}

/-- The calls of the limiter for requests. -/
def limiterCalls (requests : List (ι × Time)) : List (Str × Time) := requests.map fun a => (globalKey, a.2)

/-- The requests whose limiter call is in the window that ends at a time. -/
def windowBefore (windowSeconds : Time) (requests : List (ι × Time)) (t : Time) : List (ι × Time) :=
  requests.filter fun a => a.2 ≤ t ∧ t - a.2 < windowSeconds

theorem recent_limiterCalls {requests : List (ι × Time)} (h : ∀ a ∈ requests, a.2 ≤ t) :
    (recent windowSeconds (limiterCalls requests) globalKey t).length = (windowBefore windowSeconds requests t).length := by
  rw [recent, limiterCalls, List.filter_map, List.length_map, windowBefore]
  refine congrArg List.length (List.filter_congr fun a ha => ?_)
  simp [h a ha]

/-- How the requests stand to the calls of the limiter. -/
structure Admission (service : Service ι) (maxRequests : Int) (windowSeconds : Time) (s : System codec ι) : Prop where
  limiter : (SlidingWindowRateLimiter.new maxRequests windowSeconds).run (limiterCalls s.arrivals) =
    (s.limiter, limiterCalls s.admissions)
  sorted : (s.arrivals.map (·.2)).Pairwise (· ≤ ·)
  clock : ∀ a ∈ s.arrivals, a.2 ≤ s.clock
  sublist : s.admissions.Sublist s.arrivals
  nodup : (s.arrivals.map (·.1)).Nodup
  arrived : ∀ a ∈ s.arrivals, s.phase a.1 ≠ .arriving
  admitted : ∀ i, service.limited i = true → s.phase i ≠ .arriving → s.phase i ≠ .rejected → i ∈ s.admissions.map (·.1)
  rejected : ∀ i, s.phase i = .rejected → i ∉ s.admissions.map (·.1) ∧
    ∃ t, (i, t) ∈ s.arrivals ∧ maxRequests ≤ (windowBefore windowSeconds s.admissions t).length

theorem Admission.start (service : Service ι) (clock : Time) (maxRequests : Int) (windowSeconds : Time)
    (store : InMemoryRestorationStore codec) :
    Admission service maxRequests windowSeconds
      (System.start ι clock (SlidingWindowRateLimiter.new maxRequests windowSeconds) store) := by
  refine ⟨rfl, List.Pairwise.nil, ?_, List.Sublist.refl _, List.nodup_nil, ?_, ?_, ?_⟩
  · rintro a ⟨⟩
  · rintro a ⟨⟩
  · exact fun i _ h => absurd rfl h
  · rintro i ⟨⟩

/-- At a time of the limiter's clock, it allows a call if the window before has room. -/
theorem Admission.allow_iff (h : Admission service maxRequests windowSeconds s) (ht : s.clock ≤ t) :
    (s.limiter.allow globalKey t).1 = true ↔
      ((windowBefore windowSeconds s.admissions t).length : Int) < maxRequests := by
  have hclock : ((limiterCalls s.arrivals).map (·.2)).Pairwise (· ≤ ·) := by
    rw [limiterCalls, List.map_map]
    exact h.sorted
  obtain ⟨hinv, -⟩ := SlidingWindowRateLimiter.inv_run maxRequests windowSeconds hclock
  have hle : ∀ a ∈ s.arrivals, a.2 ≤ t := fun a ha => le_trans (h.clock a ha) ht
  have hnow := hinv t fun c hc => by
    obtain ⟨a, ha, rfl⟩ := List.mem_map.mp hc
    exact hle a ha
  rw [h.limiter] at hnow
  rw [hnow.allow_iff globalKey]
  change ((recent windowSeconds (limiterCalls s.admissions) globalKey t).length : Int) < maxRequests ↔ _
  rw [recent_limiterCalls fun a ha => hle a (h.sublist.mem ha)]

/-- A request whose call takes part in the process service is one to the limited path. -/
theorem limited_of_call? {request : Request} (h : service.call? i = some request) : service.limited i = true := by
  rw [Service.limited, (call?_eq_some h).2.1]
  exact beq_self_eq_true _

variable [DecidableEq ι]

/-- A step that is not the limiter's. -/
theorem Admission.move {phase : Phase} (h : Admission service maxRequests windowSeconds s)
    (hphase : s'.phase = Function.update s.phase i phase) (hlimiter : s'.limiter = s.limiter) (hclock : s'.clock = s.clock)
    (harrivals : s'.arrivals = s.arrivals) (hadmissions : s'.admissions = s.admissions)
    (hbefore : s.phase i = .arriving → service.limited i = false) (hnot : s.phase i ≠ .rejected)
    (hafter : phase ≠ .arriving) (hrejected : phase ≠ .rejected) : Admission service maxRequests windowSeconds s' := by
  have hother : ∀ j, s'.phase j = s.phase j ∧ j ≠ i ∨ j = i ∧ s'.phase j = phase := by
    intro j
    rw [hphase]
    by_cases hj : j = i
    · subst hj
      exact Or.inr ⟨rfl, Function.update_self _ _ _⟩
    · exact Or.inl ⟨Function.update_of_ne hj _ _, hj⟩
  refine ⟨?_, ?_, ?_, ?_, ?_, fun a ha => ?_, fun j hlimited hj hj' => ?_, fun j hj => ?_⟩
  · rw [harrivals, hlimiter, hadmissions]
    exact h.limiter
  · rw [harrivals]
    exact h.sorted
  · rw [harrivals, hclock]
    exact h.clock
  · rw [harrivals, hadmissions]
    exact h.sublist
  · rw [harrivals]
    exact h.nodup
  · rw [harrivals] at ha
    rcases hother a.1 with ⟨hsame, -⟩ | ⟨-, hnew⟩
    · rw [hsame]
      exact h.arrived a ha
    · rw [hnew]
      exact hafter
  · rw [hadmissions]
    rcases hother j with ⟨hsame, -⟩ | ⟨rfl, hnew⟩
    · rw [hsame] at hj hj'
      exact h.admitted j hlimited hj hj'
    · refine h.admitted j hlimited (fun harriving => ?_) hnot
      rw [hbefore harriving] at hlimited
      cases hlimited
  · rw [harrivals, hadmissions]
    rcases hother j with ⟨hsame, -⟩ | ⟨rfl, hnew⟩
    · rw [hsame] at hj
      exact h.rejected j hj
    · rw [hnew] at hj
      exact absurd hj hrejected

theorem Admission.limit (h : Admission service maxRequests windowSeconds s) (hi : s.phase i = .arriving)
    (ht : s.clock ≤ t) : Admission service maxRequests windowSeconds (s.limit i t) := by
  have hallow := h.allow_iff ht
  have hnew : i ∉ s.arrivals.map (·.1) := by
    intro hmem
    obtain ⟨a, ha, rfl⟩ := List.mem_map.mp hmem
    exact h.arrived a ha hi
  have hle : ∀ a ∈ s.arrivals, a.2 ≤ t := fun a ha => le_trans (h.clock a ha) ht
  have hadmissions : (s.limit i t).admissions =
      if (s.limiter.allow globalKey t).1 then s.admissions ++ [(i, t)] else s.admissions := rfl
  -- Whatever the answer, the admissions only grow, and by this request alone.
  have hgrown : s.admissions.Sublist (s.limit i t).admissions := by
    rw [hadmissions]
    split
    · exact List.sublist_append_left _ _
    · exact List.Sublist.refl _
  have hother : ∀ j, j ≠ i → j ∈ (s.limit i t).admissions.map (·.1) → j ∈ s.admissions.map (·.1) := by
    intro j hj hmem
    rw [hadmissions] at hmem
    split at hmem
    · rw [List.map_append, List.mem_append] at hmem
      exact hmem.resolve_right fun hlast => hj (List.mem_singleton.mp hlast)
    · exact hmem
  have harrived : ∀ a, a ∈ (s.limit i t).arrivals ↔ a ∈ s.arrivals ∨ a = (i, t) := fun a => by
    rw [System.limit, List.mem_append, List.mem_singleton]
  refine ⟨?_, ?_, ?_, ?_, ?_, ?_, ?_, ?_⟩
  · have hcalls : limiterCalls (s.limit i t).arrivals = limiterCalls s.arrivals ++ [(globalKey, t)] := by
      rw [System.limit, limiterCalls, List.map_append]
      rfl
    rw [hcalls, SlidingWindowRateLimiter.run_snoc, h.limiter, SlidingWindowRateLimiter.step, hadmissions]
    refine Prod.ext rfl ?_
    dsimp only
    split
    · rw [limiterCalls, limiterCalls, List.map_append]
      rfl
    · rfl
  · rw [System.limit, List.map_append, List.pairwise_append]
    refine ⟨h.sorted, List.pairwise_singleton _ _, fun x hx y hy => ?_⟩
    obtain ⟨a, ha, rfl⟩ := List.mem_map.mp hx
    obtain rfl := List.mem_singleton.mp hy
    exact hle a ha
  · intro a ha
    rcases (harrived a).mp ha with ha | rfl
    · exact hle a ha
    · exact le_refl t
  · rw [hadmissions]
    split
    · exact h.sublist.append (List.Sublist.refl _)
    · exact h.sublist.trans (List.sublist_append_left _ _)
  · rw [System.limit, List.map_append, List.nodup_append]
    refine ⟨h.nodup, List.nodup_singleton _, fun x hx y hy => ?_⟩
    obtain rfl := List.mem_singleton.mp hy
    rintro rfl
    exact hnew hx
  · intro a ha
    rw [phase_limit]
    rcases (harrived a).mp ha with ha | rfl
    · have hai : a.1 ≠ i := fun hai => hnew (hai ▸ List.mem_map_of_mem ha)
      rw [Function.update_of_ne hai]
      exact h.arrived a ha
    · rw [Function.update_self]
      split <;> simp
  · intro j hlimited hj hj'
    rw [phase_limit] at hj hj'
    by_cases hji : j = i
    · subst hji
      rw [Function.update_self] at hj'
      rw [hadmissions]
      cases hanswer : (s.limiter.allow globalKey t).1 with
      | true => simp
      | false =>
        rw [hanswer] at hj'
        exact absurd rfl hj'
    · rw [Function.update_of_ne hji] at hj hj'
      exact (hgrown.map _).mem (h.admitted j hlimited hj hj')
  · intro j hj
    rw [phase_limit] at hj
    by_cases hji : j = i
    · subst hji
      rw [Function.update_self] at hj
      cases hanswer : (s.limiter.allow globalKey t).1 with
      | true =>
        rw [hanswer] at hj
        cases hj
      | false =>
        rw [hadmissions, hanswer]
        refine ⟨fun hmem => hnew ((h.sublist.map _).mem hmem), t, (harrived _).mpr (Or.inr rfl), ?_⟩
        rw [hanswer] at hallow
        simpa using hallow
    · rw [Function.update_of_ne hji] at hj
      obtain ⟨hnot, t', harrival, hfull⟩ := h.rejected j hj
      refine ⟨fun hmem => hnot (hother j hji hmem), t', (harrived _).mpr (Or.inl harrival), ?_⟩
      have hcount := (hgrown.filter fun a : ι × Time => a.2 ≤ t' ∧ t' - a.2 < windowSeconds).length_le
      have hcount' : (windowBefore windowSeconds s.admissions t').length ≤
          (windowBefore windowSeconds (s.limit i t).admissions t').length := hcount
      omega

theorem Admission.step (h : Admission service maxRequests windowSeconds s) (hstep : Step service s s') :
    Admission service maxRequests windowSeconds s' := by
  cases hstep with
  | @limit i t hi hlimited hclock => exact h.limit hi hclock
  | @pass i hi hlimited => exact h.move rfl rfl rfl rfl rfl (fun _ => hlimited) (by simp [hi]) (by simp) (by simp)
  | @enter i hi | @respond i outcome hi _ | @unready i e hi _ _ | @probe i policy now found store hi _ _ _
  | @scrape i hi _ | @start i request hi _ | @call i prepared readings core hi _ _ | @finish i prepared answer hi _
  | @record i outcome written samples hi _ | @answer i outcome written hi _ =>
    exact h.move rfl rfl rfl rfl rfl (fun harriving => by simp [hi] at harriving) (by simp [hi]) (by simp) (by simp)

theorem Admission.steps (h : Admission service maxRequests windowSeconds s)
    (hsteps : Relation.ReflTransGen (Step service) s s') : Admission service maxRequests windowSeconds s' := by
  induction hsteps with
  | refl => exact h
  | tail _ hstep ih => exact ih.step hstep

end

end PiiProxy.Http
