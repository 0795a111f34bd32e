import PiiProxy.Core.RateLimit

/-! # The limiter goes by the calls that it has allowed

The hits that it keeps for a key are those of its allowed calls that are still in the window, whatever was rejected and
whatever other keys did. -/

namespace PiiProxy.SlidingWindowRateLimiter
open SlidingWindow

section
variable {limit : Int} {length now t : Time} {s : SlidingWindowRateLimiter × List (Str × Time)} {calls : List (Str × Time)}

/-- At a time, the limiter has the hits of the calls that were allowed. -/
structure Inv (limit : Int) (length now : Time) (s : SlidingWindowRateLimiter × List (Str × Time)) : Prop where
  maxRequests : s.1.maxRequests = limit
  windowSeconds : s.1.windowSeconds = length
  tracks : ∀ k, Tracks length s.2 k now (s.1.window k)

theorem Inv.later (h : Inv limit length now s) (hle : now ≤ t) : Inv limit length t s :=
  ⟨h.maxRequests, h.windowSeconds, fun k => (h.tracks k).later hle⟩

theorem Inv.prune_eq (h : Inv limit length now s) (k : Str) : s.1.prune k now = (recent length s.2 k now).map (·.2) := by
  rw [prune, h.windowSeconds]
  exact (h.tracks k).prune_eq (le_refl now)

theorem Inv.allow_iff (h : Inv limit length now s) (k : Str) :
    (s.1.allow k now).1 = true ↔ ((recent length s.2 k now).length : Int) < limit := by
  rw [allow_eq_true, h.maxRequests, h.prune_eq, List.length_map]

theorem Inv.step_snd {call : Str × Time} (h : Inv limit length call.2 s) :
    (step s call).2 = record limit length s.2 call := by
  have hallow := h.allow_iff call.1
  unfold step record
  dsimp only
  by_cases hroom : ((recent length s.2 call.1 call.2).length : Int) < limit
  · rw [if_pos hroom, if_pos (hallow.mpr hroom)]
  · rw [if_neg hroom, if_neg fun h => hroom (hallow.mp h)]

theorem Inv.step {call : Str × Time} (h : Inv limit length call.2 s) :
    Inv limit length call.2 (SlidingWindowRateLimiter.step s call) := by
  refine ⟨(maxRequests_allow _ _ _).trans h.maxRequests, (windowSeconds_allow _ _ _).trans h.windowSeconds, fun k => ?_⟩
  obtain ⟨key, now⟩ := call
  have hpruned : Tracks length s.2 key now (s.1.prune key now) := by
    rw [prune, h.windowSeconds]
    exact (h.tracks key).prune (le_refl now)
  show Tracks length (if (s.1.allow key now).1 then s.2 ++ [(key, now)] else s.2) k now
    ((s.1.allow key now).2.window k)
  rw [window_allow]
  by_cases hk : k = key
  · subst hk
    rw [if_pos rfl]
    split
    · exact hpruned.push
    · rw [List.append_nil]
      exact hpruned
  · rw [if_neg hk]
    split
    · exact (h.tracks k).other (Ne.symm hk)
    · exact h.tracks k

/-- What a whole run preserves: the invariant at any later time, and the calls allowed are those admitted. -/
theorem inv_run (limit : Int) (length : Time) (clock : (calls.map (·.2)).Pairwise (· ≤ ·)) :
    (∀ t, (∀ c ∈ calls, c.2 ≤ t) → Inv limit length t ((new limit length).run calls)) ∧
      ((new limit length).run calls).2 = admitted limit length calls := by
  induction calls using List.reverseRecOn with
  | nil => exact ⟨fun t _ => ⟨rfl, rfl, fun k => Tracks.new length k t⟩, rfl⟩
  | append_singleton calls call ih =>
    rw [List.map_append, List.pairwise_append] at clock
    obtain ⟨hinv, hallowed⟩ := ih clock.1
    have hnow := hinv call.2 fun c hc => clock.2.2 c.2 (List.mem_map_of_mem hc) call.2 (by simp)
    rw [run_snoc]
    refine ⟨fun t ht => hnow.step.later (ht call (by simp)), ?_⟩
    rw [hnow.step_snd, hallowed, admitted_snoc]

end

end PiiProxy.SlidingWindowRateLimiter
