import Mathlib.Algebra.Order.Group.Defs
import Mathlib.Algebra.Order.Sub.Defs
import Mathlib.Data.List.Induction
import PiiProxy.Lib.OrderedDict

/-! Limiting calls to a number in any window of a length. What the limiter is for is said over the history of the calls
    that it admitted; a list of recent times for each key, pruned from the front, is enough to decide it. -/

namespace SlidingWindow
variable {κ τ : Type} [DecidableEq κ] [AddCommGroup τ] [LinearOrder τ]

section
variable (limit : Int) (length : τ)

/-- The calls of a key that are still in the window at time `t`. -/
def recent (history : List (κ × τ)) (k : κ) (t : τ) : List (κ × τ) :=
  history.filter fun c => c.1 = k ∧ t - c.2 < length

/-- The history with a call more, if the limiter admits it. -/
def record (history : List (κ × τ)) (call : κ × τ) : List (κ × τ) :=
  if ((recent length history call.1 call.2).length : Int) < limit then history ++ [call] else history

/-- The calls admitted. -/
def admitted (calls : List (κ × τ)) : List (κ × τ) := calls.foldl (record limit length) []

end

variable {limit : Int} {length : τ} {calls : List (κ × τ)} {k : κ} {t : τ}

theorem admitted_snoc (calls : List (κ × τ)) (call : κ × τ) :
    admitted limit length (calls ++ [call]) = record limit length (admitted limit length calls) call := by
  rw [admitted, List.foldl_append]
  rfl

theorem admitted_sublist (limit : Int) (length : τ) (calls : List (κ × τ)) :
    (admitted limit length calls).Sublist calls := by
  induction calls using List.reverseRecOn with
  | nil => exact List.Sublist.refl _
  | append_singleton calls call ih =>
    rw [admitted_snoc, record]
    split
    · exact ih.append (List.Sublist.refl _)
    · exact ih.trans (List.sublist_append_left _ _)

/-- Calls that are not admitted leave no trace. -/
theorem admitted_admitted (limit : Int) (length : τ) (calls : List (κ × τ)) :
    admitted limit length (admitted limit length calls) = admitted limit length calls := by
  induction calls using List.reverseRecOn with
  | nil => rfl
  | append_singleton calls call ih =>
    rw [admitted_snoc]
    by_cases hroom : ((recent length (admitted limit length calls) call.1 call.2).length : Int) < limit
    · rw [record, if_pos hroom, admitted_snoc, ih, record, if_pos hroom]
    · rw [record, if_neg hroom, ih]

theorem recent_filter (history : List (κ × τ)) (k : κ) (t : τ) :
    recent length (history.filter fun c => c.1 = k) k t = recent length history k t := by
  rw [recent, recent, List.filter_filter]
  refine List.filter_congr fun c _ => ?_
  by_cases h : c.1 = k
  · simp [h]
  · simp [h]

/-- The calls of other keys leave no trace on those of a key. -/
theorem admitted_filter (limit : Int) (length : τ) (calls : List (κ × τ)) (k : κ) :
    admitted limit length (calls.filter fun c => c.1 = k) = (admitted limit length calls).filter fun c => c.1 = k := by
  induction calls using List.reverseRecOn with
  | nil => rfl
  | append_singleton calls call ih =>
    rw [admitted_snoc, List.filter_append]
    by_cases hk : call.1 = k
    · rw [List.filter_cons_of_pos (by simpa using hk), List.filter_nil, admitted_snoc, ih, record, record, hk, recent_filter]
      split
      · rw [List.filter_append, List.filter_cons_of_pos (by simpa using hk), List.filter_nil]
      · rfl
    · rw [List.filter_cons_of_neg (by simpa using hk), List.filter_nil, List.append_nil, ih, record]
      split
      · rw [List.filter_append, List.filter_cons_of_neg (by simpa using hk), List.filter_nil, List.append_nil]
      · rfl

/-! ### A list of times that is pruned from the front -/

/-- What the limiter keeps for a key, at a time: the times in order, of which those that are recent are right. -/
structure Tracks (length : τ) (history : List (κ × τ)) (k : κ) (now : τ) (window : List τ) : Prop where
  sorted : window.Pairwise (· ≤ ·)
  le_now : ∀ x ∈ window, x ≤ now
  recent : ∀ t, now ≤ t → (window.filter fun x => t - x < length) = (recent length history k t).map (·.2)

theorem Tracks.new (length : τ) (k : κ) (now : τ) : Tracks length [] k now [] :=
  ⟨List.Pairwise.nil, fun _ hx => absurd hx List.not_mem_nil, fun _ _ => rfl⟩

variable {history : List (κ × τ)} {now : τ} {window : List τ}

theorem Tracks.later (h : Tracks length history k now window) (hle : now ≤ t) : Tracks length history k t window :=
  ⟨h.sorted, fun x hx => le_trans (h.le_now x hx) hle, fun t' ht => h.recent t' (le_trans hle ht)⟩

theorem Tracks.push (h : Tracks length history k now window) :
    Tracks length (history ++ [(k, now)]) k now (window ++ [now]) := by
  refine ⟨List.pairwise_append.mpr ⟨h.sorted, List.pairwise_singleton _ _, ?_⟩, ?_, fun t ht => ?_⟩
  · intro x hx y hy
    obtain rfl := List.mem_singleton.mp hy
    exact h.le_now x hx
  · intro x hx
    rcases List.mem_append.mp hx with hx | hx
    · exact h.le_now x hx
    · exact le_of_eq (List.mem_singleton.mp hx)
  · rw [List.filter_append, h.recent t ht, SlidingWindow.recent, SlidingWindow.recent, List.filter_append, List.map_append]
    congr 1
    by_cases hin : t - now < length
    · simp [hin]
    · simp [hin]

theorem Tracks.other {call : κ × τ} (h : Tracks length history k now window) (hk : call.1 ≠ k) :
    Tracks length (history ++ [call]) k now window := by
  refine ⟨h.sorted, h.le_now, fun t ht => ?_⟩
  rw [h.recent t ht, SlidingWindow.recent, SlidingWindow.recent, List.filter_append,
    List.filter_cons_of_neg (by simp [hk]), List.filter_nil, List.append_nil]

variable [IsOrderedAddMonoid τ]

/-- Pruning from the front leaves exactly the recent times. -/
theorem Tracks.prune_eq (h : Tracks length history k now window) (hle : now ≤ t) :
    (window.dropWhile fun x => length ≤ t - x) = (SlidingWindow.recent length history k t).map (·.2) := by
  rw [OrderedDict.dropWhile_eq_filter, ← h.recent t hle]
  · refine List.filter_congr fun x _ => ?_
    rw [← decide_not]
    exact decide_eq_decide.mpr not_le
  · refine h.sorted.imp fun {x y} hxy => ?_
    simp only [decide_eq_true_eq]
    exact fun hy => le_trans hy (sub_le_sub_left hxy t)

theorem Tracks.prune (h : Tracks length history k now window) (hle : now ≤ t) :
    Tracks length history k t (window.dropWhile fun x => length ≤ t - x) := by
  have hsub : (window.dropWhile fun x => length ≤ t - x).Sublist window := List.dropWhile_sublist _
  refine ⟨h.sorted.sublist hsub, fun x hx => le_trans (h.le_now x (hsub.mem hx)) hle, fun t' ht => ?_⟩
  rw [h.prune_eq hle, ← h.recent t hle, ← h.recent t' (le_trans hle ht), List.filter_filter]
  refine List.filter_congr fun x _ => ?_
  -- What is recent later on is recent now.
  rw [Bool.eq_iff_iff, Bool.and_eq_true, decide_eq_true_eq, decide_eq_true_eq, and_iff_left_iff_imp]
  exact fun hx => lt_of_le_of_lt (sub_le_sub_right ht x) hx

/-! ### Any window -/

/-- A window of the length holds no more admitted calls of a key than the limit, none if that is negative. -/
theorem length_window_le (limit : Int) (clock : (calls.map (·.2)).Pairwise (· ≤ ·)) (k : κ) (a : τ) :
    ((admitted limit length calls).filter fun c => c.1 = k ∧ a ≤ c.2 ∧ c.2 < a + length).length ≤ limit.toNat := by
  induction calls using List.reverseRecOn with
  | nil => exact Nat.zero_le _
  | append_singleton calls call ih =>
    rw [List.map_append, List.pairwise_append] at clock
    have ih := ih clock.1
    rw [admitted_snoc, record]
    split
    · rename_i hroom
      rw [List.filter_append, List.length_append]
      by_cases hin : call.1 = k ∧ a ≤ call.2 ∧ call.2 < a + length
      · obtain ⟨rfl, hafter, hbefore⟩ := hin
        -- What else is in the window is recent when the call comes.
        have hle : ((admitted limit length calls).filter fun c => c.1 = call.1 ∧ a ≤ c.2 ∧ c.2 < a + length).length ≤
            (recent length (admitted limit length calls) call.1 call.2).length := by
          refine (List.monotone_filter_right _ fun c hc => ?_).length_le
          simp only [decide_eq_true_eq] at hc ⊢
          exact ⟨hc.1, sub_lt_iff_lt_add'.mpr (lt_of_lt_of_le hbefore (add_le_add_left hc.2.1 _))⟩
        have hone : ([call].filter fun c => c.1 = call.1 ∧ a ≤ c.2 ∧ c.2 < a + length).length ≤ 1 :=
          List.length_filter_le _ _
        omega
      · rw [List.filter_cons_of_neg (by simpa using hin), List.filter_nil, List.length_nil, Nat.add_zero]
        exact ih
    · exact ih

end SlidingWindow
