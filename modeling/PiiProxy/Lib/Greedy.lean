import Mathlib.Data.List.Pairwise
import Mathlib.Data.Set.Defs
import PiiProxy.Lib.Sweep

/-! A pass that never replaces what it keeps. It keeps what a reading from left to right takes: the first interval, then
    each time the first of those that start when the one before is over. -/

namespace Sweep
variable {α β : Type} [LinearOrder β] {start stop : α → β} {r : α → α → Prop} {l : List α}

/-- The pass that leaves out each interval that starts inside the last one kept. -/
def firstFit (start stop : α → β) (l : List α) : List α :=
  pass (fun last e => decide (start e < stop last)) (fun last _ => last) l

/-- The intervals of a set that the reading takes; `r` says which is first. -/
inductive Taken (start stop : α → β) (r : α → α → Prop) (s : Set α) : α → Prop
  | first {e} : e ∈ s → (∀ x ∈ s, r e x) → Taken start stop r s e
  | next {a e} : Taken start stop r s a → e ∈ s → stop a ≤ start e → (∀ x ∈ s, stop a ≤ start x → r e x) →
      Taken start stop r s e

theorem Taken.mem {s : Set α} {e : α} (h : Taken start stop r s e) : e ∈ s := by
  cases h with
  | first he _ => exact he
  | next _ he _ _ => exact he

theorem firstFit_skip {a e : α} (h : start e < stop a) (l : List α) :
    firstFit start stop (a :: e :: l) = firstFit start stop (a :: l) := by
  rw [firstFit, pass, passFrom, if_pos (decide_eq_true h)]
  rfl

theorem firstFit_take {a e : α} (h : stop a ≤ start e) (l : List α) :
    firstFit start stop (a :: e :: l) = a :: firstFit start stop (e :: l) := by
  rw [firstFit, pass, passFrom, decide_eq_false (not_lt.mpr h), if_neg Bool.false_ne_true]
  rfl

theorem mem_of_mem_firstFit {k : α} (h : k ∈ firstFit start stop l) : k ∈ l :=
  mem_of_mem_pass (fun _ _ => Or.inl rfl) h

theorem head_mem_firstFit (start stop : α → β) (a : α) (l : List α) : a ∈ firstFit start stop (a :: l) := by
  induction l with
  | nil => exact List.mem_singleton_self a
  | cons e l ih =>
    by_cases h : start e < stop a
    · rw [firstFit_skip h]
      exact ih
    · rw [firstFit_take (not_lt.mp h)]
      exact List.mem_cons_self

section
variable [Std.Refl r]

/-- Each interval starts inside one that is kept and comes no later. -/
theorem exists_kept (sorted : l.Pairwise r) (proper : ∀ e ∈ l, start e < stop e) {x : α} (hx : x ∈ l) :
    ∃ k ∈ firstFit start stop l, r k x ∧ start x < stop k := by
  cases l with
  | nil => cases hx
  | cons a l =>
    induction l generalizing a with
    | nil =>
      obtain rfl := List.mem_singleton.mp hx
      exact ⟨x, List.mem_singleton_self x, refl_of r x, proper x hx⟩
    | cons e l ih =>
      obtain ⟨hbefore, hsorted⟩ := List.pairwise_cons.mp sorted
      by_cases hinside : start e < stop a
      · rw [firstFit_skip hinside]
        rcases List.mem_cons.mp hx with rfl | hx
        · exact ⟨x, head_mem_firstFit start stop x l, refl_of r x, proper x List.mem_cons_self⟩
        rcases List.mem_cons.mp hx with rfl | hx
        · exact ⟨a, head_mem_firstFit start stop a l, hbefore x List.mem_cons_self, hinside⟩
        · have hskip : (a :: l).Sublist (a :: e :: l) := (List.sublist_cons_self e l).cons_cons a
          exact ih a (sorted.sublist hskip) (fun y hy => proper y (hskip.subset hy)) (List.mem_cons_of_mem _ hx)
      · rw [firstFit_take (not_lt.mp hinside)]
        rcases List.mem_cons.mp hx with rfl | hx
        · exact ⟨x, List.mem_cons_self, refl_of r x, proper x List.mem_cons_self⟩
        · obtain ⟨k, hk, hkx⟩ := ih e hsorted (fun y hy => proper y (List.mem_cons_of_mem _ hy)) hx
          exact ⟨k, List.mem_cons_of_mem _ hk, hkx⟩

/-- From the last interval kept on, what is kept is taken, if all that starts after it is still to come. -/
theorem taken_of_mem_from {s : Set α} {a : α} (sorted : (a :: l).Pairwise r) (proper : ∀ e ∈ a :: l, start e < stop e)
    (hsub : ∀ x ∈ a :: l, x ∈ s) (hrest : ∀ x ∈ s, stop a ≤ start x → x ∈ l) (ha : Taken start stop r s a) {k : α}
    (hk : k ∈ firstFit start stop (a :: l)) : Taken start stop r s k := by
  induction l generalizing a with
  | nil =>
    obtain rfl := List.mem_singleton.mp hk
    exact ha
  | cons e l ih =>
    obtain ⟨-, hsorted⟩ := List.pairwise_cons.mp sorted
    by_cases hinside : start e < stop a
    · rw [firstFit_skip hinside] at hk
      have hskip : (a :: l).Sublist (a :: e :: l) := (List.sublist_cons_self e l).cons_cons a
      refine ih (sorted.sublist hskip) (fun x hx => proper x (hskip.subset hx)) (fun x hx => hsub x (hskip.subset hx)) ?_
        ha hk
      intro x hx hstart
      rcases List.mem_cons.mp (hrest x hx hstart) with rfl | hxl
      · exact absurd hinside (not_lt.mpr hstart)
      · exact hxl
    · rw [firstFit_take (not_lt.mp hinside)] at hk
      rcases List.mem_cons.mp hk with rfl | hk
      · exact ha
      have hproper := proper e (by simp)
      have hnext : Taken start stop r s e := by
        refine .next ha (hsub e (by simp)) (not_lt.mp hinside) fun x hx hstart => ?_
        rcases List.mem_cons.mp (hrest x hx hstart) with rfl | hxl
        · exact refl_of r x
        · exact (List.pairwise_cons.mp hsorted).1 x hxl
      refine ih hsorted (fun x hx => proper x (List.mem_cons_of_mem _ hx)) (fun x hx => hsub x (List.mem_cons_of_mem _ hx))
        ?_ hnext hk
      intro x hx hstart
      have hafter : stop a ≤ start x := le_trans (not_lt.mp hinside) (le_trans (le_of_lt hproper) hstart)
      rcases List.mem_cons.mp (hrest x hx hafter) with rfl | hxl
      · exact absurd hproper (not_lt.mpr hstart)
      · exact hxl

theorem taken_of_mem_firstFit (sorted : l.Pairwise r) (proper : ∀ e ∈ l, start e < stop e) {k : α}
    (hk : k ∈ firstFit start stop l) : Taken start stop r {x | x ∈ l} k := by
  cases l with
  | nil => cases hk
  | cons a l =>
    have hfirst : Taken start stop r {x | x ∈ a :: l} a := by
      refine .first List.mem_cons_self fun x hx => ?_
      rcases List.mem_cons.mp hx with rfl | hx
      · exact refl_of r x
      · exact (List.pairwise_cons.mp sorted).1 x hx
    refine taken_of_mem_from sorted proper (fun x hx => hx) ?_ hfirst hk
    intro x hx hstart
    rcases List.mem_cons.mp hx with rfl | hx
    · exact absurd (proper x List.mem_cons_self) (not_lt.mpr hstart)
    · exact hx

variable (le : ∀ a b, r a b → start a ≤ start b)
include le

omit [Std.Refl r] in
theorem pairwise_firstFit (sorted : l.Pairwise r) : (firstFit start stop l).Pairwise fun x y => stop x ≤ start y :=
  pass_pairwise (fun _ _ => Or.inl rfl) le sorted fun _ _ _ _ hgap => not_lt.mp (of_decide_eq_false hgap)

omit [Std.Refl r] in
/-- Of two intervals kept that are not one, one is over when the other starts. -/
theorem apart_of_mem_firstFit (sorted : l.Pairwise r) {x y : α} (hx : x ∈ firstFit start stop l)
    (hy : y ∈ firstFit start stop l) : x = y ∨ stop x ≤ start y ∨ stop y ≤ start x := by
  have hsymm : Std.Symm fun x y : α => x = y ∨ stop x ≤ start y ∨ stop y ≤ start x :=
    ⟨fun _ _ h => h.imp Eq.symm Or.symm⟩
  exact List.Pairwise.forall_of_forall (R := fun x y => x = y ∨ stop x ≤ start y ∨ stop y ≤ start x)
    (fun _ _ => Or.inl rfl) ((pairwise_firstFit le sorted).imp fun h => Or.inr (Or.inl h)) hx hy

/-- What is taken is kept, up to an interval in the same place. -/
theorem exists_mem_of_taken (sorted : l.Pairwise r) (proper : ∀ e ∈ l, start e < stop e)
    (same : ∀ a b, r a b → r b a → stop a = stop b) {k : α} (h : Taken start stop r {x | x ∈ l} k) :
    ∃ k' ∈ firstFit start stop l, start k' = start k ∧ stop k' = stop k := by
  have hplace : ∀ {k k' : α}, r k k' → r k' k → start k' = start k ∧ stop k' = stop k := fun h h' =>
    ⟨le_antisymm (le _ _ h') (le _ _ h), same _ _ h' h⟩
  induction h with
  | @first e he hfirst =>
    obtain ⟨k', hk', hbefore, -⟩ := exists_kept sorted proper he
    exact ⟨k', hk', hplace (hfirst k' (mem_of_mem_firstFit hk')) hbefore⟩
  | @next a e _ he hafter hfirst ih =>
    obtain ⟨a', ha', -, hstop⟩ := ih
    obtain ⟨k', hk', hbefore, hinside⟩ := exists_kept sorted proper he
    -- The interval kept in which `e` starts is after `a`, so `e` comes before it.
    have hk : stop a ≤ start k' := by
      rcases apart_of_mem_firstFit le sorted ha' hk' with rfl | h | h
      · exact absurd hinside (not_lt.mpr (hstop ▸ hafter))
      · exact hstop ▸ h
      · have ha := proper a' (mem_of_mem_firstFit ha')
        exact absurd (lt_of_lt_of_le hinside (le_trans h (le_of_lt ha))) (not_lt.mpr (hstop ▸ hafter))
    exact ⟨k', hk', hplace (hfirst k' (mem_of_mem_firstFit hk') hk) hbefore⟩

end

end Sweep
