import Mathlib.Order.Lattice
import Mathlib.Data.List.Basic
import Mathlib.Data.List.Induction
import Mathlib.Data.List.Sort

/-! One left-to-right pass over intervals that keeps at most one of those that meet: each interval is
    compared with the last one kept, and the better of the two stays in its place. The pass is taken over
    intervals sorted by start and then by stop. -/

namespace Sweep
variable {α : Type}

section Pass
variable (meets : α → α → Bool) (better : α → α → α)

/-- The pass from the last interval kept, over what is still to come. -/
def passFrom : α → List α → List α
  | a, [] => [a]
  | a, e :: l => if meets a e then passFrom (better a e) l else a :: passFrom e l

def pass : List α → List α
  | [] => []
  | a :: l => passFrom meets better a l

/-- The pairs that the pass compares: the last interval kept, and the next one, which meets it. -/
def comparedFrom : α → List α → List (α × α)
  | _, [] => []
  | a, e :: l => if meets a e then (a, e) :: comparedFrom (better a e) l else comparedFrom e l

def compared : List α → List (α × α)
  | [] => []
  | a :: l => comparedFrom meets better a l

/-- The pass as a loop: `kept[-1]` is replaced, or the interval is appended. -/
def step (kept : List α) (e : α) : List α :=
  match kept.getLast? with
  | some a => if meets a e then kept.dropLast ++ [better a e] else kept ++ [e]
  | none => kept ++ [e]

theorem foldl_step_snoc (kept : List α) (a : α) (l : List α) :
    l.foldl (step meets better) (kept ++ [a]) = kept ++ passFrom meets better a l := by
  induction l generalizing kept a with
  | nil => rfl
  | cons e l ih =>
    have hstep : step meets better (kept ++ [a]) e =
        if meets a e then kept ++ [better a e] else (kept ++ [a]) ++ [e] := by
      simp only [step, List.getLast?_concat, List.dropLast_concat]
    rw [List.foldl_cons, hstep, passFrom]
    split
    · exact ih kept _
    · rw [ih (kept ++ [a]) e, List.append_assoc, List.singleton_append]

theorem foldl_step (l : List α) : l.foldl (step meets better) [] = pass meets better l := by
  cases l with
  | nil => rfl
  | cons a l => exact foldl_step_snoc meets better [] a l

theorem pass_snoc (l : List α) (e : α) : pass meets better (l ++ [e]) = step meets better (pass meets better l) e := by
  rw [← foldl_step, List.foldl_append, foldl_step]
  rfl

/-- The pass over a longer list makes the comparisons of the shorter one first; the next one is made with the
    last interval kept. -/
theorem comparedFrom_snoc (a : α) (l : List α) (e : α) :
    ∃ b, (passFrom meets better a l).getLast? = some b ∧
      comparedFrom meets better a (l ++ [e]) =
        comparedFrom meets better a l ++ if meets b e then [(b, e)] else [] := by
  induction l generalizing a with
  | nil =>
    refine ⟨a, rfl, ?_⟩
    by_cases hm : meets a e = true
    · simp [comparedFrom, hm]
    · simp [comparedFrom, hm]
  | cons x l ih =>
    rw [List.cons_append, passFrom, comparedFrom, comparedFrom]
    by_cases hm : meets a x = true
    · obtain ⟨b, hb, hcomp⟩ := ih (better a x)
      refine ⟨b, by simpa [hm] using hb, ?_⟩
      simp [hm, hcomp]
    · obtain ⟨b, hb, hcomp⟩ := ih x
      refine ⟨b, ?_, by simp [hm, hcomp]⟩
      rw [if_neg hm, List.getLast?_cons, hb]
      rfl

theorem compared_snoc (l : List α) (e : α) :
    ∃ new, compared meets better (l ++ [e]) = compared meets better l ++ new := by
  cases l with
  | nil => exact ⟨[], rfl⟩
  | cons a l =>
    obtain ⟨b, -, hcomp⟩ := comparedFrom_snoc meets better a l e
    exact ⟨_, hcomp⟩

theorem compared_initial {p l : List α} (h : p <+: l) : compared meets better p <+: compared meets better l := by
  obtain ⟨q, rfl⟩ := h
  induction q using List.reverseRecOn with
  | nil => simp
  | append_singleton q e ih =>
    obtain ⟨new, hnew⟩ := compared_snoc meets better (p ++ q) e
    rw [← List.append_assoc, hnew]
    exact ih.trans (List.prefix_append _ _)

theorem map_pass {β : Type} {f : α → β} {meets' : β → β → Bool} {better' : β → β → β}
    (hmeets : ∀ a b, meets' (f a) (f b) = meets a b) (hbetter : ∀ a b, better' (f a) (f b) = f (better a b))
    (l : List α) : (pass meets better l).map f = pass meets' better' (l.map f) := by
  have hfrom : ∀ (l : List α) a, (passFrom meets better a l).map f = passFrom meets' better' (f a) (l.map f) := by
    intro l
    induction l with
    | nil => exact fun a => rfl
    | cons e l ih =>
      intro a
      rw [passFrom, List.map_cons, passFrom, hmeets]
      split
      · rw [hbetter, ih]
      · rw [List.map_cons, ih]
  cases l with
  | nil => rfl
  | cons a l => exact hfrom l a

end Pass

section Choice
variable {meets : α → α → Bool} {better : α → α → α}

/-- The better of two intervals is one of them. -/
def Chooses (better : α → α → α) : Prop := ∀ a b, better a b = a ∨ better a b = b

theorem mem_of_mem_passFrom (ch : Chooses better) {a x : α} {l : List α} (h : x ∈ passFrom meets better a l) :
    x ∈ a :: l := by
  induction l generalizing a with
  | nil => exact h
  | cons e l ih =>
    rw [passFrom] at h
    split at h
    · rcases ch a e with hb | hb <;> rw [hb] at h <;> have := ih h <;> simp only [List.mem_cons] at this ⊢ <;> tauto
    · rcases List.mem_cons.mp h with rfl | h
      · simp
      · exact List.mem_cons_of_mem _ (ih h)

theorem mem_of_mem_pass (ch : Chooses better) {x : α} {l : List α} (h : x ∈ pass meets better l) : x ∈ l := by
  cases l with
  | nil => exact h
  | cons a l => exact mem_of_mem_passFrom ch h

theorem mem_of_mem_comparedFrom (ch : Chooses better) {a : α} {l : List α} {c : α × α}
    (h : c ∈ comparedFrom meets better a l) : c.1 ∈ a :: l ∧ c.2 ∈ a :: l := by
  induction l generalizing a with
  | nil => cases h
  | cons e l ih =>
    have keep : ∀ {b x : α}, (b = a ∨ b = e) → x ∈ b :: l → x ∈ a :: e :: l := by
      rintro b x hb hx
      rcases List.mem_cons.mp hx with rfl | hx
      · rcases hb with rfl | rfl <;> simp
      · simp [hx]
    rw [comparedFrom] at h
    split at h
    · rcases List.mem_cons.mp h with rfl | h
      · simp
      · exact ⟨keep (ch a e) (ih h).1, keep (ch a e) (ih h).2⟩
    · exact ⟨keep (Or.inr rfl) (ih h).1, keep (Or.inr rfl) (ih h).2⟩

/-- `x` wins each of the comparisons that it takes part in. -/
def Unbeaten (better : α → α → α) (pairs : List (α × α)) (x : α) : Prop :=
  ∀ c ∈ pairs, c.1 = x ∨ c.2 = x → better c.1 c.2 = x

instance [DecidableEq α] (pairs : List (α × α)) (x : α) : Decidable (Unbeaten better pairs x) :=
  inferInstanceAs (Decidable (∀ c ∈ pairs, _))

/-- The pass keeps exactly the intervals that lose no comparison. -/
theorem mem_passFrom_iff (ch : Chooses better) {a x : α} {l : List α} (nodup : (a :: l).Nodup) :
    x ∈ passFrom meets better a l ↔ x ∈ a :: l ∧ Unbeaten better (comparedFrom meets better a l) x := by
  induction l generalizing a with
  | nil => simp [passFrom, comparedFrom, Unbeaten]
  | cons e l ih =>
    obtain ⟨hane, hnodup⟩ := List.nodup_cons.mp nodup
    obtain ⟨hel, hl⟩ := List.nodup_cons.mp hnodup
    have hae : a ≠ e := fun h => hane (by simp [h])
    have hal : a ∉ l := fun h => hane (by simp [h])
    rw [passFrom, comparedFrom]
    by_cases hm : meets a e = true
    · simp only [hm, ↓reduceIte]
      -- The winner goes on; the loser stands nowhere in what is still to come.
      have goOn : ∀ {w y : α}, better a e = w → (w = a ∧ y = e ∨ w = e ∧ y = a) → (w :: l).Nodup → y ∉ w :: l →
          (x ∈ passFrom meets better w l ↔
            x ∈ a :: e :: l ∧ Unbeaten better ((a, e) :: comparedFrom meets better w l) x) := by
        intro w y hw hwy hwl hy
        rw [ih hwl]
        constructor
        · rintro ⟨hx, hun⟩
          have hxy : x ≠ y := fun h => hy (h ▸ hx)
          refine ⟨?_, fun c hc hcx => ?_⟩
          · rcases hwy with ⟨rfl, rfl⟩ | ⟨rfl, rfl⟩
            · exact List.mem_cons.mpr ((List.mem_cons.mp hx).imp_right (List.mem_cons_of_mem _))
            · exact List.mem_cons_of_mem _ hx
          · rcases List.mem_cons.mp hc with rfl | hc
            · rcases hwy with ⟨rfl, rfl⟩ | ⟨rfl, rfl⟩
              · exact hw.trans (hcx.resolve_right fun h => hxy h.symm)
              · exact hw.trans (hcx.resolve_left fun h => hxy h.symm)
            · exact hun c hc hcx
        · rintro ⟨hx, hun⟩
          have hxw : x = a ∨ x = e → x = w := fun h => by
            rw [← hw]
            exact (hun (a, e) (by simp) (h.imp Eq.symm Eq.symm)).symm
          refine ⟨?_, fun c hc => hun c (List.mem_cons_of_mem _ hc)⟩
          rcases List.mem_cons.mp hx with h | hx
          · exact List.mem_cons.mpr (Or.inl (hxw (Or.inl h)))
          · rcases List.mem_cons.mp hx with h | hx
            · exact List.mem_cons.mpr (Or.inl (hxw (Or.inr h)))
            · exact List.mem_cons_of_mem _ hx
      rcases ch a e with hb | hb
      · rw [hb]
        exact goOn hb (Or.inl ⟨rfl, rfl⟩) (List.nodup_cons.mpr ⟨hal, hl⟩)
          fun h => (List.mem_cons.mp h).elim (fun h => hae h.symm) hel
      · rw [hb]
        exact goOn hb (Or.inr ⟨rfl, rfl⟩) hnodup fun h => (List.mem_cons.mp h).elim hae hal
    · simp only [hm, Bool.false_eq_true, ↓reduceIte]
      rw [List.mem_cons, ih hnodup, List.mem_cons (a := x) (b := a)]
      constructor
      · rintro (rfl | ⟨hx, hun⟩)
        · refine ⟨Or.inl rfl, fun c hc hcx => ?_⟩
          have hmem := mem_of_mem_comparedFrom ch hc
          rcases hcx with rfl | rfl
          · exact absurd hmem.1 hane
          · exact absurd hmem.2 hane
        · exact ⟨Or.inr hx, hun⟩
      · rintro ⟨rfl | hx, hun⟩
        · exact Or.inl rfl
        · exact Or.inr ⟨hx, hun⟩

theorem mem_pass_iff (ch : Chooses better) {x : α} {l : List α} (nodup : l.Nodup) :
    x ∈ pass meets better l ↔ x ∈ l ∧ Unbeaten better (compared meets better l) x := by
  cases l with
  | nil => simp [pass]
  | cons a l => exact mem_passFrom_iff ch nodup

end Choice

/-! ### Sorting before the pass -/

section Sorting
variable {r : α → α → Prop} [DecidableRel r] [IsTrans α r] (p : α → Bool)

theorem filter_orderedInsert {a : α} {l : List α} (sorted : l.Pairwise r) :
    (l.orderedInsert r a).filter p = if p a then (l.filter p).orderedInsert r a else l.filter p := by
  induction l with
  | nil => cases h : p a <;> simp [h]
  | cons b l ih =>
    obtain ⟨hb, hl⟩ := List.pairwise_cons.mp sorted
    rw [List.orderedInsert_cons]
    by_cases hab : r a b
    · -- What the filter leaves of the list still comes after `a`.
      have hfirst : ((b :: l).filter p).orderedInsert r a = a :: (b :: l).filter p := by
        cases hf : (b :: l).filter p with
        | nil => rfl
        | cons c m =>
          have hc : c ∈ b :: l := (List.mem_filter.mp (hf ▸ List.mem_cons_self)).1
          have hac : r a c := (List.mem_cons.mp hc).elim (fun h => h ▸ hab) fun h => IsTrans.trans _ _ _ hab (hb c h)
          exact List.orderedInsert_cons_of_le r m hac
      rw [if_pos hab, List.filter_cons, hfirst]
    · rw [if_neg hab, List.filter_cons, List.filter_cons, ih hl]
      cases hp : p a <;> cases hpb : p b <;> simp [List.orderedInsert_cons, hab]

variable [Std.Total r]

/-- A stable sort of what a filter leaves is what the filter leaves of the sorted list. -/
theorem filter_insertionSort (l : List α) : (l.insertionSort r).filter p = (l.filter p).insertionSort r := by
  induction l with
  | nil => rfl
  | cons a l ih =>
    rw [List.insertionSort_cons, filter_orderedInsert p (List.pairwise_insertionSort r l), ih, List.filter_cons]
    cases p a <;> rfl

end Sorting

/-! ### Intervals -/

section Intervals
variable {β : Type} [LinearOrder β] (start stop : α → β)

/-- The intervals `[start, stop)` have a point in common. -/
def overlaps (a b : α) : Bool := start a < stop b ∧ start b < stop a

/-- The order of the pass: by start, then by stop. -/
def Before (a b : α) : Prop := start a < start b ∨ start a = start b ∧ stop a ≤ stop b

instance : DecidableRel (Before start stop) := fun _ _ => inferInstanceAs (Decidable (_ ∨ _))

variable {start stop}

theorem Before.start_le {a b : α} (h : Before start stop a b) : start a ≤ start b := by
  rcases h with h | ⟨h, -⟩
  · exact le_of_lt h
  · exact le_of_eq h

theorem before_trans {a b c : α} (h₁ : Before start stop a b) (h₂ : Before start stop b c) :
    Before start stop a c := by
  rcases h₁ with h₁ | ⟨h₁, h₁'⟩ <;> rcases h₂ with h₂ | ⟨h₂, h₂'⟩
  · exact Or.inl (lt_trans h₁ h₂)
  · exact Or.inl (h₂ ▸ h₁)
  · exact Or.inl (h₁ ▸ h₂)
  · exact Or.inr ⟨h₁.trans h₂, le_trans h₁' h₂'⟩

theorem before_total (a b : α) : Before start stop a b ∨ Before start stop b a := by
  rcases lt_trichotomy (start a) (start b) with h | h | h
  · exact Or.inl (Or.inl h)
  · rcases le_total (stop a) (stop b) with h' | h'
    · exact Or.inl (Or.inr ⟨h, h'⟩)
    · exact Or.inr (Or.inr ⟨h.symm, h'⟩)
  · exact Or.inr (Or.inl h)

instance : IsTrans α (Before start stop) := ⟨fun _ _ _ => before_trans⟩
instance : Std.Total (Before start stop) := ⟨before_total⟩

/-- An interval that comes later and does not meet an earlier one begins after it. -/
theorem stop_le_start {a e : α} (hae : Before start stop a e) (he : start e ≤ stop e)
    (hm : overlaps start stop a e = false) : stop a ≤ start e := by
  simp only [overlaps, decide_eq_false_iff_not, not_and, not_lt] at hm
  by_cases h : start a < stop e
  · exact hm h
  · have hse : stop e ≤ start a := not_lt.mp h
    rcases hae with hae | ⟨hae, hstop⟩
    · exact absurd (lt_of_lt_of_le hae (le_trans he hse)) (lt_irrefl _)
    · exact le_trans hstop (hae ▸ hse)

/-- After an interval that ends before all that is still to come, the pass starts afresh. -/
theorem passFrom_of_after {better : α → α → α} {x : α} {l : List α} (h : ∀ e ∈ l, stop x ≤ start e) :
    passFrom (overlaps start stop) better x l = x :: pass (overlaps start stop) better l := by
  cases l with
  | nil => rfl
  | cons e l =>
    have hno : overlaps start stop x e = false := by
      simp only [overlaps, decide_eq_false_iff_not, not_and, not_lt]
      exact fun _ => h e (by simp)
    simp [passFrom, hno, pass]

/-- What the pass keeps stands apart, in order, if an interval that comes later and does not meet an earlier one
    begins after it. -/
theorem passFrom_pairwise {meets : α → α → Bool} {better : α → α → α} {r : α → α → Prop} (ch : Chooses better)
    (le : ∀ a b, r a b → start a ≤ start b) {a : α} {l : List α} (sorted : (a :: l).Pairwise r)
    (gap : ∀ x, ∀ e ∈ l, r x e → meets x e = false → stop x ≤ start e) :
    (passFrom meets better a l).Pairwise fun x y => stop x ≤ start y := by
  induction l generalizing a with
  | nil => exact List.pairwise_singleton _ a
  | cons e l ih =>
    obtain ⟨hbefore, hsorted⟩ := List.pairwise_cons.mp sorted
    obtain ⟨hbefore', hsorted'⟩ := List.pairwise_cons.mp hsorted
    have gap' : ∀ x, ∀ e ∈ l, r x e → meets x e = false → stop x ≤ start e := fun x e he => gap x e (by simp [he])
    rw [passFrom]
    split
    · rcases ch a e with hb | hb
      · rw [hb]
        exact ih (List.pairwise_cons.mpr ⟨fun x hx => hbefore x (by simp [hx]), hsorted'⟩) gap'
      · rw [hb]
        exact ih hsorted gap'
    · rename_i hm
      have hstop := gap a e (by simp) (hbefore e (by simp)) (Bool.not_eq_true _ ▸ hm)
      refine List.pairwise_cons.mpr ⟨fun x hx => ?_, ih hsorted gap'⟩
      rcases List.mem_cons.mp (mem_of_mem_passFrom ch hx) with rfl | hx
      · exact hstop
      · exact le_trans hstop (le _ _ (hbefore' x hx))

theorem pass_pairwise {meets : α → α → Bool} {better : α → α → α} {r : α → α → Prop} (ch : Chooses better)
    (le : ∀ a b, r a b → start a ≤ start b) {l : List α} (sorted : l.Pairwise r)
    (gap : ∀ x, ∀ e ∈ l, r x e → meets x e = false → stop x ≤ start e) :
    (pass meets better l).Pairwise fun x y => stop x ≤ start y := by
  cases l with
  | nil => exact List.Pairwise.nil
  | cons a l => exact passFrom_pairwise ch le sorted fun x e he => gap x e (by simp [he])

theorem pass_eq_self {meets : α → α → Bool} {better : α → α → α} {l : List α}
    (h : l.Pairwise fun a b => meets a b = false) : pass meets better l = l := by
  cases l with
  | nil => rfl
  | cons a l =>
    rw [pass]
    induction l generalizing a with
    | nil => rfl
    | cons e l ih =>
      obtain ⟨ha, hl⟩ := List.pairwise_cons.mp h
      simp [passFrom, ha e (by simp), ih e hl]

/-- In the pass over `l`, no comparison of a marked interval with an unmarked one is won by the unmarked one. -/
def MarkedWin (on : α → Bool) (better : α → α → α) (pairs : List (α × α)) : Prop :=
  ∀ c ∈ pairs, on c.1 ≠ on c.2 → on (better c.1 c.2) = true

instance (on : α → Bool) (better : α → α → α) (pairs : List (α × α)) : Decidable (MarkedWin on better pairs) :=
  inferInstanceAs (Decidable (∀ c ∈ pairs, _))

section Filter
variable {better : α → α → α} {on : α → Bool}

/-- While the marked side wins every mixed comparison, the marked intervals do not see the others. -/
theorem filter_passFrom (ch : Chooses better) {a : α} {l : List α}
    (sorted : (a :: l).Pairwise (Before start stop)) (proper : ∀ e ∈ l, on e = false → start e ≤ stop e)
    (win : MarkedWin on better (comparedFrom (overlaps start stop) better a l)) :
    (passFrom (overlaps start stop) better a l).filter on =
      if on a then passFrom (overlaps start stop) better a (l.filter on)
      else pass (overlaps start stop) better (l.filter on) := by
  induction l generalizing a with
  | nil => cases ha : on a <;> simp [passFrom, pass, ha]
  | cons e l ih =>
    obtain ⟨hbefore, hsorted⟩ := List.pairwise_cons.mp sorted
    obtain ⟨hbefore', hsorted'⟩ := List.pairwise_cons.mp hsorted
    have proper' : ∀ x ∈ l, on x = false → start x ≤ stop x := fun x hx => proper x (by simp [hx])
    have sortedOf : ∀ w, (w = a ∨ w = e) → (w :: l).Pairwise (Before start stop) := by
      rintro w (rfl | rfl)
      · exact List.pairwise_cons.mpr ⟨fun x hx => hbefore x (by simp [hx]), hsorted'⟩
      · exact hsorted
    rw [passFrom]
    rw [comparedFrom] at win
    by_cases hm : overlaps start stop a e = true
    · simp only [hm, ↓reduceIte] at win ⊢
      have hwin := win (a, e) (by simp)
      rw [ih (sortedOf _ (ch a e)) proper' fun c hc => win c (by simp [hc])]
      -- The winner carries the mark exactly if one of the two does.
      cases ha : on a <;> cases he : on e
      · have : on (better a e) = false := by rcases ch a e with hb | hb <;> rw [hb] <;> assumption
        simp [this, he]
      · have hw : on (better a e) = true := hwin (by simp [ha, he])
        have hb : better a e = e := (ch a e).resolve_left fun hb => by rw [hb, ha] at hw; cases hw
        simp [hb, he, pass]
      · have hw : on (better a e) = true := hwin (by simp [ha, he])
        have hb : better a e = a := (ch a e).resolve_right fun hb => by rw [hb, he] at hw; cases hw
        simp [hb, ha, he]
      · have : on (better a e) = true := by rcases ch a e with hb | hb <;> rw [hb] <;> assumption
        simp [this, he, passFrom, hm]
    · rw [Bool.not_eq_true] at hm
      simp only [hm, Bool.false_eq_true, ↓reduceIte] at win ⊢
      rw [List.filter_cons, ih hsorted proper' win]
      cases ha : on a <;> cases he : on e
      · simp [he]
      · simp [he, pass]
      · have hstop := stop_le_start (hbefore e (by simp)) (proper e (by simp) he) hm
        have hafter : ∀ x ∈ l.filter on, stop a ≤ start x := fun x hx =>
          le_trans hstop (hbefore' x (List.mem_filter.mp hx).1).start_le
        simp [he, passFrom_of_after hafter]
      · simp [he, passFrom, hm]

theorem filter_pass (ch : Chooses better) {l : List α} (sorted : l.Pairwise (Before start stop))
    (proper : ∀ e ∈ l, on e = false → start e ≤ stop e)
    (win : MarkedWin on better (compared (overlaps start stop) better l)) :
    (pass (overlaps start stop) better l).filter on = pass (overlaps start stop) better (l.filter on) := by
  cases l with
  | nil => rfl
  | cons a l =>
    rw [pass, filter_passFrom ch sorted (fun e he => proper e (by simp [he])) win]
    cases ha : on a <;> simp [ha, pass]

/-- Conversely, if removing the unmarked intervals first makes no difference for any initial part of the list,
    no unmarked interval wins against a marked one. -/
theorem markedWin_of_filter_pass (ch : Chooses better) {l : List α} (sorted : l.Pairwise (Before start stop))
    (proper : ∀ e ∈ l, start e ≤ stop e)
    (same : ∀ p, p <+: l → (pass (overlaps start stop) better p).filter on =
      pass (overlaps start stop) better (p.filter on)) :
    MarkedWin on better (compared (overlaps start stop) better l) := by
  induction l using List.reverseRecOn with
  | nil => exact fun c hc => by cases hc
  | append_singleton p e ih =>
    obtain ⟨hsorted, -, hlast⟩ := List.pairwise_append.mp sorted
    have ih := ih hsorted (fun x hx => proper x (List.mem_append_left _ hx))
      fun q hq => same q (hq.trans (List.prefix_append p [e]))
    have hp := same p (List.prefix_append p [e])
    have hpe := same (p ++ [e]) (List.prefix_refl _)
    cases p with
    | nil => exact fun c hc => by cases hc
    | cons x l =>
      obtain ⟨a, ha, hcomp⟩ := comparedFrom_snoc (overlaps start stop) better x l e
      rw [List.cons_append, compared, hcomp]
      intro c hc hmixed
      rcases List.mem_append.mp hc with hc | hc
      · exact ih c hc hmixed
      · split at hc
        · rename_i hm
          obtain rfl := List.mem_singleton.mp hc
          obtain ⟨init, hinit⟩ : ∃ init, pass (overlaps start stop) better (x :: l) = init ++ [a] :=
            List.getLast?_eq_some_iff.mp ha
          have hstep : pass (overlaps start stop) better (x :: l ++ [e]) = init ++ [better a e] := by
            rw [pass_snoc, hinit]
            simp [step, hm]
          by_contra hlost
          rw [Bool.not_eq_true] at hlost
          rw [hinit] at hp
          rw [hstep, List.filter_append, List.filter_append, List.filter_cons_of_neg (by simp [hlost]),
            List.filter_nil, List.append_nil] at hpe
          -- The length of what is kept gives the loss away.
          cases hon : on a <;> cases hoe : on e
          · simp [hon, hoe] at hmixed
          · have hfilter : init.filter on = pass (overlaps start stop) better ((x :: l).filter on) := by
              rw [← hp, List.filter_append]
              simp [hon]
            have hkept : a ∈ pass (overlaps start stop) better (x :: l) := by
              rw [hinit]
              simp
            have hmema : a ∈ x :: l := mem_of_mem_pass ch hkept
            have hapart : ∀ b ∈ init, stop b ≤ start e := by
              intro b hb
              have hpair : (pass (overlaps start stop) better (x :: l)).Pairwise fun y z => stop y ≤ start z :=
                pass_pairwise ch (fun _ _ => Before.start_le) hsorted
                  fun y z hz hyz hno => stop_le_start hyz (proper z (List.mem_append_left _ hz)) hno
              rw [hinit] at hpair
              have hba := (List.pairwise_append.mp hpair).2.2 b hb a (by simp)
              exact le_trans hba (hlast a hmema e (by simp)).start_le
            have hone : [e].filter on = [e] := by simp [hoe]
            rw [hone, pass_snoc, ← hfilter] at hpe
            have hnew : step (overlaps start stop) better (init.filter on) e = init.filter on ++ [e] := by
              unfold step
              cases hb : (init.filter on).getLast? with
              | none => rfl
              | some b =>
                have hmemb : b ∈ init := (List.mem_filter.mp (List.mem_of_getLast? hb)).1
                have hno : overlaps start stop b e = false := by
                  simp only [overlaps, decide_eq_false_iff_not, not_and, not_lt]
                  exact fun _ => hapart b hmemb
                simp [hno]
            rw [hnew] at hpe
            simpa using congrArg List.length hpe
          · have hnone : [e].filter on = [] := by simp [hoe]
            have hone : [a].filter on = [a] := by simp [hon]
            rw [hnone, List.append_nil, ← hp, List.filter_append, hone] at hpe
            simpa using congrArg List.length hpe
          · simp [hon, hoe] at hmixed
        · cases hc

/-- Removing the unmarked intervals first makes no difference for any initial part of the list exactly if no
    unmarked interval wins against a marked one. -/
theorem filter_pass_iff (ch : Chooses better) {l : List α} (sorted : l.Pairwise (Before start stop))
    (proper : ∀ e ∈ l, start e ≤ stop e) :
    (∀ p, p <+: l → (pass (overlaps start stop) better p).filter on =
        pass (overlaps start stop) better (p.filter on)) ↔
      MarkedWin on better (compared (overlaps start stop) better l) := by
  constructor
  · exact markedWin_of_filter_pass ch sorted proper
  · intro win p hp
    refine filter_pass ch (sorted.sublist hp.sublist) (fun e he _ => proper e (hp.subset he)) fun c hc => ?_
    exact win c ((compared_initial _ _ hp).subset hc)

end Filter

end Intervals

end Sweep
