import Mathlib.Data.List.TakeWhile
import Mathlib.Order.Lattice
import Mathlib.Logic.Function.Basic
import PiiProxy.Lib.OrderedDict

/-! Dictionaries whose entries expire. An entry carries the time of its expiry; it is evicted from the front of
    the dictionary, where the entries that expire first stand. The abstract counterpart is a map that remembers
    the last entry of every key and answers with it as long as it has not expired. -/

namespace ExpiringDict
variable {κ τ ν : Type}

section Push
variable [DecidableEq κ] {d : OrderedDict κ (τ × ν)} {k : κ}

/-- Storing an entry as the newest one. -/
def push (d : OrderedDict κ (τ × ν)) (k : κ) (p : τ × ν) : OrderedDict κ (τ × ν) :=
  (if d.contains k then d.moveToEnd k else d).set k p

@[simp] theorem get?_push (d : OrderedDict κ (τ × ν)) (k j : κ) (p : τ × ν) :
    (push d k p).get? j = if j = k then some p else d.get? j := by
  unfold push
  rw [OrderedDict.get?_set]
  split
  · rfl
  · split
    · exact OrderedDict.get?_moveToEnd d k j
    · rfl

theorem entries_push (d : OrderedDict κ (τ × ν)) (k : κ) (p : τ × ν) :
    (push d k p).entries = (d.erase k).entries ++ [(k, p)] :=
  OrderedDict.entries_set_moveToEnd d k p

theorem length_push_of_contains {p : τ × ν} (h : d.contains k = true) : (push d k p).length = d.length := by
  rw [OrderedDict.length, entries_push, List.length_append, List.length_singleton]
  exact OrderedDict.length_erase_of_contains h

theorem length_push_of_new {p : τ × ν} (h : d.contains k = false) : (push d k p).length = d.length + 1 := by
  unfold push
  rw [h, if_neg (by simp), OrderedDict.length, OrderedDict.entries_set_of_new _ h, List.length_append,
    List.length_singleton]
  rfl

end Push

variable [LinearOrder τ]

/-- What a lookup at time `now` sees of an entry. -/
def live (now : τ) : Option (τ × ν) → Option ν
  | some (expires, v) => if now < expires then some v else none
  | none => none

theorem live_eq_some {now : τ} {e : Option (τ × ν)} {v : ν} :
    live now e = some v ↔ ∃ expires, e = some (expires, v) ∧ now < expires := by
  cases e with
  | none => simp [live]
  | some e =>
    obtain ⟨expires, w⟩ := e
    by_cases h : now < expires
    · simp [live, h]
    · simp [live, h]

theorem live_eq_none {now : τ} {e : Option (τ × ν)} : live now e = none ↔ ∀ p, e = some p → p.1 ≤ now := by
  cases e with
  | none => simp [live]
  | some e =>
    obtain ⟨expires, w⟩ := e
    by_cases h : now < expires
    · simp [live, h]
    · simp [live, h, not_lt.mp h]

/-- `d` answers as `m` does, from `now` on: an entry that it lacks has expired. -/
def Agrees [DecidableEq κ] (now : τ) (d : OrderedDict κ (τ × ν)) (m : κ → Option (τ × ν)) : Prop :=
  ∀ k, d.get? k = m k ∨ d.get? k = none ∧ ∀ p, m k = some p → p.1 ≤ now

/-- The entries stand in the order in which they expire. -/
def Sorted (d : OrderedDict κ (τ × ν)) : Prop := d.entries.Pairwise fun a b => a.2.1 ≤ b.2.1

/-- Pops expired entries from the front. -/
def evict (d : OrderedDict κ (τ × ν)) (now : τ) : OrderedDict κ (τ × ν) := d.popWhile fun e => !decide (now < e.2.1)

variable [DecidableEq κ] {d : OrderedDict κ (τ × ν)} {m : κ → Option (τ × ν)} {now t : τ} {k : κ}

/-! ### Eviction -/

omit [DecidableEq κ] in
/-- In a sorted dictionary the loop over the front removes exactly the expired entries. -/
theorem entries_evict (h : Sorted d) (now : τ) : (evict d now).entries = d.entries.filter fun e => now < e.2.1 := by
  rw [evict, OrderedDict.entries_popWhile]
  · simp
  · refine h.imp fun {a b} hab => ?_
    simp only [Bool.not_eq_true', decide_eq_false_iff_not, not_lt]
    exact fun hb => le_trans hab hb

omit [DecidableEq κ] in
theorem length_evict_le (d : OrderedDict κ (τ × ν)) (now : τ) : (evict d now).length ≤ d.length :=
  (List.dropWhile_sublist _).length_le

theorem get?_of_evict {p : τ × ν} (h : (evict d now).get? k = some p) : d.get? k = some p :=
  OrderedDict.get?_eq_some.mpr ((List.dropWhile_sublist _).mem (OrderedDict.get?_eq_some.mp h))

/-- An entry that has not expired is never evicted, sorted or not. -/
theorem get?_evict {p : τ × ν} (h : d.get? k = some p) (hlive : now < p.1) : (evict d now).get? k = some p := by
  rw [OrderedDict.get?_eq_some] at h ⊢
  have hmem : (k, p) ∈ d.entries.takeWhile (fun e => !decide (now < e.2.1)) ++ (evict d now).entries := by
    rw [evict, OrderedDict.popWhile, List.takeWhile_append_dropWhile]
    exact h
  rcases List.mem_append.mp hmem with hmem | hmem
  · have := List.mem_takeWhile_imp hmem
    simp [hlive] at this
  · exact hmem

/-! ### The order of the entries -/

omit [DecidableEq κ] in
theorem Sorted.sublist {d' : OrderedDict κ (τ × ν)} (h : Sorted d) (hsub : d'.entries.Sublist d.entries) : Sorted d' :=
  List.Pairwise.sublist hsub h

omit [DecidableEq κ] in
theorem Sorted.evict (h : Sorted d) (now : τ) : Sorted (evict d now) := h.sublist (List.dropWhile_sublist _)

theorem Sorted.erase (h : Sorted d) (k : κ) : Sorted (d.erase k) := h.sublist List.filter_sublist

/-- A newest entry that expires last keeps the order. -/
theorem Sorted.push {p : τ × ν} (h : Sorted d) (hlast : ∀ e ∈ d.entries, e.2.1 ≤ p.1) : Sorted (push d k p) := by
  unfold Sorted
  rw [entries_push]
  refine List.pairwise_append.mpr ⟨h.erase k, List.pairwise_singleton _ _, fun a ha b hb => ?_⟩
  obtain rfl := List.mem_singleton.mp hb
  exact hlast a (List.mem_filter.mp ha).1

/-! ### Agreement with the map -/

theorem Agrees.later (h : Agrees now d m) (ht : now ≤ t) : Agrees t d m := by
  intro j
  rcases h j with h | ⟨h, hexp⟩
  · exact Or.inl h
  · exact Or.inr ⟨h, fun p hp => le_trans (hexp p hp) ht⟩

theorem Agrees.evict (h : Agrees now d m) (now' : τ) (hle : now ≤ now') : Agrees now' (evict d now') m := by
  intro j
  cases hget : (ExpiringDict.evict d now').get? j with
  | some p =>
    have hd := get?_of_evict hget
    rcases h j with h | ⟨h, -⟩
    · exact Or.inl (by rw [← h, hd])
    · rw [h] at hd
      cases hd
  | none =>
    refine Or.inr ⟨rfl, fun p hp => ?_⟩
    rcases h j with h | ⟨-, hexp⟩
    · by_contra hlive
      rw [get?_evict (h.trans hp) (not_le.mp hlive)] at hget
      cases hget
    · exact le_trans (hexp p hp) hle

theorem Agrees.erase (h : Agrees now d m) (k : κ) : Agrees now (d.erase k) (Function.update m k none) := by
  intro j
  by_cases hj : j = k
  · subst hj
    exact Or.inl (by simp)
  · simp only [OrderedDict.get?_erase, hj, if_false, Function.update_of_ne hj]
    exact h j

theorem Agrees.expire (h : Agrees now d m) {p : τ × ν} (hget : d.get? k = some p) (hexp : p.1 ≤ now) :
    Agrees now (d.erase k) m := by
  intro j
  by_cases hj : j = k
  · subst hj
    refine Or.inr ⟨by simp, fun q hq => ?_⟩
    rcases h j with h | ⟨h, -⟩
    · rw [hget, hq] at h
      obtain rfl := Option.some.inj h
      exact hexp
    · rw [hget] at h
      cases h
  · simp only [OrderedDict.get?_erase, hj, if_false]
    exact h j

theorem Agrees.push (h : Agrees now d m) (k : κ) (p : τ × ν) :
    Agrees now (push d k p) (Function.update m k (some p)) := by
  intro j
  by_cases hj : j = k
  · subst hj
    exact Or.inl (by simp)
  · simp only [get?_push, hj, if_false, Function.update_of_ne hj]
    exact h j

theorem Agrees.live (h : Agrees now d m) (ht : now ≤ t) (k : κ) : live t (d.get? k) = live t (m k) := by
  rcases h k with h | ⟨h, hexp⟩
  · rw [h]
  · rw [h, live_eq_none.mpr fun p hp => le_trans (hexp p hp) ht]
    rfl

end ExpiringDict
