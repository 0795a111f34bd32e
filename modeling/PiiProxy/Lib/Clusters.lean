import PiiProxy.Lib.Sweep

/-! What a pass over intervals leaves out, and that it does not depend on the order of intervals with one span. The
    better of two intervals is the one of the higher rank, and the first one where the ranks are equal. -/

namespace Sweep
variable {α β γ : Type} [LinearOrder β] [LinearOrder γ]

/-- The interval of the higher rank. -/
def higher (rank : α → γ) (a b : α) : α := if rank a < rank b then b else a

theorem higher_chooses (rank : α → γ) : Chooses (higher rank) := by
  intro a b
  unfold higher
  split
  · exact Or.inr rfl
  · exact Or.inl rfl

/-- The highest of three does not depend on the order in which the last two come. -/
theorem higher_right_comm {rank : α → γ} {x y : α} (heq : rank x = rank y → x = y) (a : α) :
    higher rank (higher rank a x) y = higher rank (higher rank a y) x := by
  unfold higher
  rcases lt_trichotomy (rank x) (rank y) with h | h | h
  · by_cases hay : rank a < rank y
    · rw [if_pos hay, if_neg (lt_asymm h)]
      by_cases hax : rank a < rank x
      · rw [if_pos hax, if_pos h]
      · rw [if_neg hax, if_pos hay]
    · have hax : ¬ rank a < rank x := fun hlt => hay (lt_trans hlt h)
      rw [if_neg hay, if_neg hax, if_neg hay]
  · rw [heq h]
  · by_cases hax : rank a < rank x
    · rw [if_pos hax, if_neg (lt_asymm h)]
      by_cases hay : rank a < rank y
      · rw [if_pos hay, if_pos h]
      · rw [if_neg hay, if_pos hax]
    · have hay : ¬ rank a < rank y := fun hlt => hax (lt_trans hlt h)
      rw [if_neg hax, if_neg hay, if_neg hax]

theorem higher_comm {rank : α → γ} {x y : α} (heq : rank x = rank y → x = y) : higher rank x y = higher rank y x := by
  unfold higher
  rcases lt_trichotomy (rank x) (rank y) with h | h | h
  · rw [if_pos h, if_neg (lt_asymm h)]
  · rw [heq h]
  · rw [if_neg (lt_asymm h), if_pos h]

section Orphans
variable (start stop : α → β) (rank : α → γ)

/-- Whenever an interval takes the place of the one held, it meets every interval that the held one had beaten.
    `beaten` are these, since the pass last went over a gap. -/
def NoneOrphaned : List α → α → List α → Prop
  | _, _, [] => True
  | beaten, a, e :: l =>
    if overlaps start stop a e then
      if rank a < rank e then (∀ d ∈ beaten, overlaps start stop d e = true) ∧ NoneOrphaned (a :: beaten) e l
      else NoneOrphaned (e :: beaten) a l
    else NoneOrphaned [] e l

/-- The interval meets one of at least its rank that is kept. -/
def Represented (kept : List α) (x : α) : Prop := ∃ k ∈ kept, overlaps start stop x k = true ∧ rank x ≤ rank k

variable {start stop rank}

theorem overlaps_comm (a b : α) : overlaps start stop a b = overlaps start stop b a := by
  simp only [overlaps, and_comm]

theorem overlaps_self {a : α} (h : start a < stop a) : overlaps start stop a a = true := by
  simp [overlaps, h]

/-- An interval that ends before another one starts meets none that starts later. -/
theorem not_overlaps_of_le {a b : α} (h : stop a ≤ start b) : overlaps start stop a b = false := by
  simp only [overlaps, decide_eq_false_iff_not, not_and, not_lt]
  exact fun _ => h

theorem noneOrphaned_iff_from {beaten : List α} {a : α} {l : List α} (sorted : (a :: l).Pairwise (Before start stop))
    (proper : ∀ x ∈ a :: l, start x < stop x) (hbefore : ∀ d ∈ beaten, ∀ e ∈ l, Before start stop d e)
    (hbeaten : ∀ d ∈ beaten, overlaps start stop d a = true ∧ rank d ≤ rank a) :
    NoneOrphaned start stop rank beaten a l ↔
      ∀ x ∈ beaten ++ a :: l, Represented start stop rank (passFrom (overlaps start stop) (higher rank) a l) x := by
  induction l generalizing beaten a with
  | nil =>
    refine iff_of_true trivial fun x hx => ⟨a, List.mem_singleton_self a, ?_⟩
    rcases List.mem_append.mp hx with hx | hx
    · exact hbeaten x hx
    · obtain rfl := List.mem_singleton.mp hx
      exact ⟨overlaps_self (proper x List.mem_cons_self), le_refl _⟩
  | cons e l ih =>
    obtain ⟨ha, hsorted⟩ := List.pairwise_cons.mp sorted
    obtain ⟨he, hsorted'⟩ := List.pairwise_cons.mp hsorted
    have hae : Before start stop a e := ha e List.mem_cons_self
    have proper' : ∀ x ∈ e :: l, start x < stop x := fun x hx => proper x (List.mem_cons_of_mem _ hx)
    have hsortedA : (a :: l).Pairwise (Before start stop) :=
      List.pairwise_cons.mpr ⟨fun x hx => ha x (List.mem_cons_of_mem _ hx), hsorted'⟩
    have hbeforeL : ∀ d ∈ beaten, ∀ x ∈ l, Before start stop d x :=
      fun d hd x hx => hbefore d hd x (List.mem_cons_of_mem _ hx)
    rw [NoneOrphaned, passFrom]
    by_cases hm : overlaps start stop a e = true
    · rw [if_pos hm, if_pos hm, higher]
      by_cases hrank : rank a < rank e
      · -- `e` takes the place of `a`.
        rw [if_pos hrank, if_pos hrank]
        by_cases hall : ∀ d ∈ beaten, overlaps start stop d e = true
        · have hbeaten' : ∀ d ∈ a :: beaten, overlaps start stop d e = true ∧ rank d ≤ rank e := by
            intro d hd
            rcases List.mem_cons.mp hd with rfl | hd
            · exact ⟨hm, le_of_lt hrank⟩
            · exact ⟨hall d hd, le_trans (hbeaten d hd).2 (le_of_lt hrank)⟩
          have hbefore' : ∀ d ∈ a :: beaten, ∀ x ∈ l, Before start stop d x := by
            intro d hd x hx
            rcases List.mem_cons.mp hd with rfl | hd
            · exact ha x (List.mem_cons_of_mem _ hx)
            · exact hbeforeL d hd x hx
          rw [and_iff_right hall, ih hsorted proper' hbefore' hbeaten']
          exact forall_congr' fun x => by simp only [List.mem_append, List.mem_cons]; tauto
        · refine iff_of_false (fun h => hall h.1) fun h => hall fun d hd => ?_
          by_contra hno
          -- Whatever is kept from here on starts after the end of `d`.
          have hend : stop d ≤ start e := stop_le_start (hbefore d hd e List.mem_cons_self)
            (le_of_lt (proper' e List.mem_cons_self)) (Bool.not_eq_true _ ▸ hno)
          obtain ⟨k, hk, hmeet, -⟩ := h d (List.mem_append_left _ hd)
          have hek : start e ≤ start k := by
            rcases List.mem_cons.mp (mem_of_mem_passFrom (higher_chooses rank) hk) with rfl | hk
            · exact le_refl _
            · exact (he k hk).start_le
          rw [not_overlaps_of_le (le_trans hend hek)] at hmeet
          cases hmeet
      · -- `a` stays.
        rw [if_neg hrank, if_neg hrank]
        have hbeaten' : ∀ d ∈ e :: beaten, overlaps start stop d a = true ∧ rank d ≤ rank a := by
          intro d hd
          rcases List.mem_cons.mp hd with rfl | hd
          · exact ⟨(overlaps_comm d a).trans hm, not_lt.mp hrank⟩
          · exact hbeaten d hd
        have hbefore' : ∀ d ∈ e :: beaten, ∀ x ∈ l, Before start stop d x := by
          intro d hd x hx
          rcases List.mem_cons.mp hd with rfl | hd
          · exact he x hx
          · exact hbeforeL d hd x hx
        have properA : ∀ x ∈ a :: l, start x < stop x := by
          intro x hx
          rcases List.mem_cons.mp hx with rfl | hx
          · exact proper x List.mem_cons_self
          · exact proper' x (List.mem_cons_of_mem _ hx)
        rw [ih hsortedA properA hbefore' hbeaten']
        exact forall_congr' fun x => by simp only [List.mem_append, List.mem_cons]; tauto
    · -- `a` is kept, and what comes next starts after its end.
      rw [if_neg hm, if_neg hm, ih hsorted proper' (fun d hd => by cases hd) fun d hd => by cases hd]
      have hgap : stop a ≤ start e :=
        stop_le_start hae (le_of_lt (proper' e List.mem_cons_self)) (Bool.not_eq_true _ ▸ hm)
      constructor
      · intro h x hx
        have keepLater : Represented start stop rank (passFrom (overlaps start stop) (higher rank) e l) x →
            Represented start stop rank (a :: passFrom (overlaps start stop) (higher rank) e l) x := by
          rintro ⟨k, hk, hrep⟩
          exact ⟨k, List.mem_cons_of_mem _ hk, hrep⟩
        rcases List.mem_append.mp hx with hx | hx
        · exact ⟨a, List.mem_cons_self, hbeaten x hx⟩
        · rcases List.mem_cons.mp hx with rfl | hx
          · exact ⟨x, List.mem_cons_self, overlaps_self (proper x List.mem_cons_self), le_refl _⟩
          · exact keepLater (h x hx)
      · intro h x hx
        obtain ⟨k, hk, hmeet, hrank⟩ := h x (List.mem_append_right _ (List.mem_cons_of_mem _ hx))
        rcases List.mem_cons.mp hk with rfl | hk
        · have hex : start e ≤ start x := by
            rcases List.mem_cons.mp hx with rfl | hx
            · exact le_refl _
            · exact (he x hx).start_le
          rw [overlaps_comm, not_overlaps_of_le (le_trans hgap hex)] at hmeet
          cases hmeet
        · exact ⟨k, hk, hmeet, hrank⟩

variable (start stop rank)

/-- In the pass over the list no interval is left with none kept that it meets and that ranks as high. -/
def NoOrphans : List α → Prop
  | [] => True
  | a :: l => NoneOrphaned start stop rank [] a l

variable {start stop rank}

theorem noOrphans_iff {l : List α} (sorted : l.Pairwise (Before start stop)) (proper : ∀ x ∈ l, start x < stop x) :
    NoOrphans start stop rank l ↔
      ∀ x ∈ l, Represented start stop rank (pass (overlaps start stop) (higher rank) l) x := by
  cases l with
  | nil => exact iff_of_true trivial fun x hx => by cases hx
  | cons a l =>
    exact noneOrphaned_iff_from sorted proper (fun d hd => by cases hd) fun d hd => by cases hd

end Orphans

/-! ### Intervals with one span -/

section Permutation
variable {meets : α → α → Bool} {better : α → α → α}

/-- Two neighbours can change places if every comparison treats them alike. -/
theorem passFrom_swap (ch : Chooses better) {x y : α} (hmeets : ∀ a, meets a x = meets a y)
    (hxy : meets x y = true) (hyx : meets y x = true) (hcomm : better x y = better y x)
    (hright : ∀ a, better (better a x) y = better (better a y) x) (a : α) (l : List α) :
    passFrom meets better a (x :: y :: l) = passFrom meets better a (y :: x :: l) := by
  simp only [passFrom]
  rcases hm : meets a y with _ | _
  · simp only [hmeets a, hm, hxy, hyx, hcomm, Bool.false_eq_true, if_false, if_true]
  · have hax : meets a x = true := (hmeets a).trans hm
    have h₁ : meets (better a x) y = true := by
      rcases ch a x with h | h
      · rw [h, hm]
      · rw [h, hxy]
    have h₂ : meets (better a y) x = true := by
      rcases ch a y with h | h
      · rw [h, hax]
      · rw [h, hyx]
    simp only [hax, h₁, h₂, hright, if_true]

variable {r : α → α → Prop} (ch : Chooses better)
  (hmeets : ∀ a x y, r x y → r y x → meets a x = meets a y)
  (hself : ∀ x y, r x y → r y x → meets x x = true → meets x y = true)
  (hcomm : ∀ x y, r x y → r y x → better x y = better y x)
  (hright : ∀ a x y, r x y → r y x → better (better a x) y = better (better a y) x)

include ch hmeets hself hcomm hright

/-- An interval can be moved before others with its span. -/
theorem passFrom_front {x : α} (hx : meets x x = true) {p : List α}
    (hp : ∀ y ∈ p, r x y ∧ r y x ∧ meets y y = true) (q : List α) (a : α) :
    passFrom meets better a (p ++ x :: q) = passFrom meets better a (x :: (p ++ q)) := by
  induction p generalizing a with
  | nil => rfl
  | cons y p ih =>
    obtain ⟨hxy, hyx, hy⟩ := hp y List.mem_cons_self
    have hp' : ∀ z ∈ p, r x z ∧ r z x ∧ meets z z = true := fun z hz => hp z (List.mem_cons_of_mem _ hz)
    have hswap := passFrom_swap ch (fun c => hmeets c x y hxy hyx) (hself x y hxy hyx hx) (hself y x hyx hxy hy)
      (hcomm x y hxy hyx) (fun c => hright c x y hxy hyx) a (p ++ q)
    rw [List.cons_append, List.cons_append, hswap, passFrom, passFrom, ih hp', ih hp']

theorem passFrom_perm {l m : List α} (hperm : l.Perm m) (hl : l.Pairwise r) (hm : m.Pairwise r)
    (proper : ∀ x ∈ l, meets x x = true) (a : α) : passFrom meets better a l = passFrom meets better a m := by
  induction l generalizing m a with
  | nil => rw [hperm.nil_eq]
  | cons x l ih =>
    obtain ⟨p, q, rfl⟩ := List.append_of_mem (hperm.subset List.mem_cons_self)
    obtain ⟨hx, hl'⟩ := List.pairwise_cons.mp hl
    have hrest : l.Perm (p ++ q) := (List.perm_cons x).mp (hperm.trans List.perm_middle)
    have hm' : (p ++ q).Pairwise r := hm.sublist ((List.sublist_cons_self x q).append_left p)
    -- What stands before `x` in the other list has the span of `x`.
    have hsame : ∀ y ∈ p, r x y ∧ r y x ∧ meets y y = true := by
      intro y hy
      have hyl : y ∈ l := hrest.symm.subset (List.mem_append_left _ hy)
      exact ⟨hx y hyl, (List.pairwise_append.mp hm).2.2 y hy x List.mem_cons_self,
        proper y (List.mem_cons_of_mem _ hyl)⟩
    have hcongr : ∀ b, passFrom meets better b l = passFrom meets better b (p ++ q) :=
      ih hrest hl' hm' fun z hz => proper z (List.mem_cons_of_mem _ hz)
    rw [passFrom_front ch hmeets hself hcomm hright (proper x List.mem_cons_self) hsame, passFrom, passFrom, hcongr,
      hcongr]

theorem pass_perm {l m : List α} (hperm : l.Perm m) (hl : l.Pairwise r) (hm : m.Pairwise r)
    (proper : ∀ x ∈ l, meets x x = true) : pass meets better l = pass meets better m := by
  rcases l with _ | ⟨x, l⟩
  · rw [hperm.nil_eq]
  rcases m with _ | ⟨y, m⟩
  · rw [hperm.eq_nil]
  obtain ⟨hx, hl'⟩ := List.pairwise_cons.mp hl
  have hxx := proper x List.mem_cons_self
  have proper' : ∀ z ∈ l, meets z z = true := fun z hz => proper z (List.mem_cons_of_mem _ hz)
  by_cases heq : x = y
  · obtain rfl := heq
    exact passFrom_perm ch hmeets hself hcomm hright ((List.perm_cons x).mp hperm) hl' (List.pairwise_cons.mp hm).2
      proper' x
  · have hxm : x ∈ m := (List.mem_cons.mp (hperm.subset List.mem_cons_self)).resolve_left heq
    obtain ⟨p, q, rfl⟩ := List.append_of_mem hxm
    have hrest : l.Perm (y :: (p ++ q)) := (List.perm_cons x).mp (hperm.trans (List.perm_middle : (y :: p ++ x :: q).Perm _))
    have hm' : (y :: (p ++ q)).Pairwise r := hm.sublist (((List.sublist_cons_self x q).append_left p).cons_cons y)
    obtain ⟨-, -, hlast⟩ := List.pairwise_append.mp (show (y :: p ++ x :: q).Pairwise r from hm)
    have hsame : ∀ z ∈ y :: p, r x z ∧ r z x ∧ meets z z = true := by
      intro z hz
      have hzl : z ∈ l := hrest.symm.subset (List.mem_append_left q hz)
      exact ⟨hx z hzl, hlast z hz x List.mem_cons_self, proper' z hzl⟩
    obtain ⟨hxy, hyx, hy⟩ := hsame y List.mem_cons_self
    have hsame' : ∀ z ∈ p, r x z ∧ r z x ∧ meets z z = true := fun z hz => hsame z (List.mem_cons_of_mem _ hz)
    calc passFrom meets better x l
        = passFrom meets better x (y :: (p ++ q)) :=
          passFrom_perm ch hmeets hself hcomm hright hrest hl' hm' proper' x
      _ = passFrom meets better (better x y) (p ++ q) := by rw [passFrom, if_pos (hself x y hxy hyx hxx)]
      _ = passFrom meets better y (x :: (p ++ q)) := by rw [passFrom, if_pos (hself y x hyx hxy hy), hcomm x y hxy hyx]
      _ = passFrom meets better y (p ++ x :: q) :=
          (passFrom_front ch hmeets hself hcomm hright hxx hsame' q y).symm

end Permutation

end Sweep
