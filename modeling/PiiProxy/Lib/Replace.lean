import PiiProxy.Lib.Splice

/-! Replacing every occurrence of a text by another one. The scan goes from left to right, and behind each place that
    it finds it goes on. -/

namespace Replace
open Splice
variable {α : Type} [BEq α]

/-- `skip` elements belong to a place that was found. -/
def scan (old new : List α) : Nat → List α → List α
  | _, [] => []
  | skip + 1, _ :: l => scan old new skip l
  | 0, c :: l => if old.isPrefixOf (c :: l) then new ++ scan old new (old.length - 1) l else c :: scan old new 0 l

/-- The places that the scan finds, in a text that stands at `i`. -/
def places (old : List α) : Nat → Nat → List α → List Nat
  | _, _, [] => []
  | i, skip + 1, _ :: l => places old (i + 1) skip l
  | i, 0, c :: l =>
    if old.isPrefixOf (c :: l) then i :: places old (i + 1) (old.length - 1) l else places old (i + 1) 0 l

variable {old new l : List α} {i : Nat}

theorem scan_skip (a : List α) : scan old new a.length (a ++ l) = scan old new 0 l := by
  induction a with
  | nil => rfl
  | cons c a ih => exact ih

theorem places_skip (a : List α) (i : Nat) : places old i a.length (a ++ l) = places old (i + a.length) 0 l := by
  induction a generalizing i with
  | nil => rfl
  | cons c a ih =>
    rw [List.length_cons, List.cons_append, places, ih]
    congr 1
    omega

theorem scan_copy (new : List α) {a : List α} (h : ∀ o ∈ places old i 0 (a ++ l), i + a.length ≤ o) :
    scan old new 0 (a ++ l) = a ++ scan old new 0 l ∧ places old i 0 (a ++ l) = places old (i + a.length) 0 l := by
  induction a generalizing i with
  | nil => exact ⟨rfl, rfl⟩
  | cons c a ih =>
    rw [List.cons_append, places] at h
    rw [List.cons_append, scan, places]
    by_cases hfound : old.isPrefixOf (c :: (a ++ l)) = true
    · rw [if_pos hfound] at h
      have := h i List.mem_cons_self
      simp only [List.length_cons] at this
      omega
    · rw [if_neg hfound] at h
      obtain ⟨hscan, hplaces⟩ := ih fun o ho => by
        have := h o ho
        simp only [List.length_cons] at this
        omega
      rw [if_neg hfound, if_neg hfound, hscan, hplaces, List.length_cons]
      exact ⟨rfl, by congr 1; omega⟩

theorem le_of_mem_places {skip o : Nat} (h : o ∈ places old i skip l) : i ≤ o := by
  induction l generalizing i skip with
  | nil => cases h
  | cons c l ih =>
    cases skip with
    | succ skip =>
      rw [places] at h
      exact Nat.le_of_succ_le (ih h)
    | zero =>
      rw [places] at h
      split at h
      · rcases List.mem_cons.mp h with rfl | h
        · exact Nat.le_refl _
        · exact Nat.le_of_succ_le (ih h)
      · exact Nat.le_of_succ_le (ih h)

variable [LawfulBEq α]

theorem scan_found (hold : old ≠ []) : scan old new 0 (old ++ l) = new ++ scan old new 0 l := by
  cases old with
  | nil => exact absurd rfl hold
  | cons c old =>
    have hfound : (c :: old).isPrefixOf (c :: (old ++ l)) = true :=
      List.isPrefixOf_iff_prefix.mpr (List.prefix_append (c :: old) l)
    rw [List.cons_append, scan, if_pos hfound, List.length_cons, Nat.add_sub_cancel, scan_skip]

theorem places_found (hold : old ≠ []) (i : Nat) :
    places old i 0 (old ++ l) = i :: places old (i + old.length) 0 l := by
  cases old with
  | nil => exact absurd rfl hold
  | cons c old =>
    have hfound : (c :: old).isPrefixOf (c :: (old ++ l)) = true :=
      List.isPrefixOf_iff_prefix.mpr (List.prefix_append (c :: old) l)
    rw [List.cons_append, places, if_pos hfound, List.length_cons, Nat.add_sub_cancel, places_skip]
    congr 2
    omega

theorem scan_self (hold : old ≠ []) (l : List α) : scan old old 0 l = l := by
  induction hn : l.length using Nat.strongRecOn generalizing l with
  | ind n ih =>
    subst hn
    cases l with
    | nil => rfl
    | cons c l =>
      by_cases hfound : old.isPrefixOf (c :: l) = true
      · obtain ⟨rest, hrest⟩ := List.isPrefixOf_iff_prefix.mp hfound
        rw [← hrest, scan_found hold]
        refine congrArg _ (ih _ ?_ rest rfl)
        rw [← hrest, List.length_append]
        exact Nat.lt_add_of_pos_left (List.length_pos_of_ne_nil hold)
      · rw [scan, if_neg hfound, ih l.length (Nat.lt_succ_self _) l rfl]

/-- If only the marked segments are found, they are what is replaced. -/
theorem scan_interleave (hold : old ≠ []) {gaps : List (List α)} {segments : List (List α × Bool)}
    (hgaps : gaps.length = segments.length + 1) (hmarked : ∀ s ∈ segments, s.2 = true → s.1 = old)
    (hplaces : ∀ o ∈ places old i 0 (interleave gaps (segments.map (·.1))), ∃ (n : Nat) (s : List α × Bool),
      segments[n]? = some s ∧ s.2 = true ∧
        o = i + (interleave (gaps.take (n + 1)) ((segments.map (·.1)).take n)).length) :
    scan old new 0 (interleave gaps (segments.map (·.1))) =
      interleave gaps (segments.map fun s => if s.2 then new else s.1) := by
  induction segments generalizing gaps i with
  | nil =>
    obtain ⟨g, rfl⟩ := List.length_eq_one_iff.mp hgaps
    have hnone : ∀ o ∈ places old i 0 (g ++ []), i + g.length ≤ o := by
      intro o ho
      obtain ⟨n, s, hs, -⟩ := hplaces o (by simpa [interleave] using ho)
      cases hs
    simpa [interleave, scan] using (scan_copy new hnone).1
  | cons s segments ih =>
    rcases gaps with _ | ⟨g, gaps⟩
    · cases hgaps
    rw [List.map_cons, interleave, List.append_assoc] at hplaces ⊢
    -- A place is that of the first segment, or one of a later segment.
    have hfirst : ∀ o ∈ places old i 0 (g ++ (s.1 ++ interleave gaps (segments.map (·.1)))),
        s.2 = true ∧ o = i + g.length ∨ ∃ (n : Nat) (t : List α × Bool), segments[n]? = some t ∧ t.2 = true ∧
          o = i + g.length + s.1.length + (interleave (gaps.take (n + 1)) ((segments.map (·.1)).take n)).length := by
      intro o ho
      obtain ⟨n, t, ht, hmark, ho⟩ := hplaces o ho
      cases n with
      | zero =>
        obtain rfl := Option.some.inj ht
        refine Or.inl ⟨hmark, ?_⟩
        simpa [interleave] using ho
      | succ n =>
        refine Or.inr ⟨n, t, ht, hmark, ?_⟩
        rw [List.take_succ_cons, List.take_succ_cons, interleave, List.length_append, List.length_append] at ho
        omega
    obtain ⟨hgap, hgap'⟩ := scan_copy new (a := g) fun o ho => by
      rcases hfirst o ho with ⟨-, ho⟩ | ⟨n, t, -, -, ho⟩
      · omega
      · omega
    rw [hgap'] at hfirst
    rw [hgap, List.map_cons, interleave, List.append_assoc]
    refine congrArg _ ?_
    have hrest := fun h => ih (i := i + g.length + s.1.length) (Nat.succ.inj hgaps)
      (fun t ht => hmarked t (List.mem_cons_of_mem _ ht)) h
    by_cases hmark : s.2 = true
    · have hs := hmarked s List.mem_cons_self hmark
      rw [hs] at hfirst hrest ⊢
      rw [if_pos hmark, scan_found hold]
      refine congrArg _ (hrest fun o ho => ?_)
      rw [places_found hold] at hfirst
      rcases hfirst o (List.mem_cons_of_mem _ ho) with ⟨-, ho'⟩ | hlater
      · have := le_of_mem_places ho
        have := List.length_pos_of_ne_nil hold
        omega
      · exact hlater
    · have hlater : ∀ o ∈ places old (i + g.length) 0 (s.1 ++ interleave gaps (segments.map (·.1))),
          ∃ (n : Nat) (t : List α × Bool), segments[n]? = some t ∧ t.2 = true ∧
            o = i + g.length + s.1.length + (interleave (gaps.take (n + 1)) ((segments.map (·.1)).take n)).length :=
        fun o ho => (hfirst o ho).resolve_left fun h => hmark h.1
      obtain ⟨hsegment, hsegment'⟩ := scan_copy new (a := s.1) fun o ho => by
        obtain ⟨n, t, -, -, ho⟩ := hlater o ho
        omega
      rw [hsegment'] at hlater
      rw [if_neg hmark, hsegment, hrest hlater]

end Replace
