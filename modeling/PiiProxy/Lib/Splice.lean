import Mathlib.Data.List.Basic

/-! Texts in which segments that stand one after the other are replaced. A replacement is written from left to
    right: what stands before the segment is copied, and the cursor goes to the segment's end. -/

namespace Splice
variable {α : Type}

/-- Replaces the segment `[start, stop)` by `text`. -/
structure Patch (α : Type) where
  start : Nat
  stop : Nat
  text : List α

namespace Patch

/-- The position `i` stands in the segment. -/
def Has (p : Patch α) (i : Nat) : Prop := p.start ≤ i ∧ i < p.stop

instance (p : Patch α) (i : Nat) : Decidable (p.Has i) := inferInstanceAs (Decidable (_ ∧ _))

end Patch

/-- `l` from `cursor` on, with the patches applied. -/
def splice (l : List α) : Nat → List (Patch α) → List α
  | cursor, [] => l.drop cursor
  | cursor, p :: ps => (l.drop cursor).take (p.start - cursor) ++ p.text ++ splice l p.stop ps

/-- The segments stand one after the other in a text of length `n`, from `cursor` on. -/
def Fits (n : Nat) : Nat → List (Patch α) → Prop
  | cursor, [] => cursor ≤ n
  | cursor, p :: ps => cursor ≤ p.start ∧ p.start ≤ p.stop ∧ Fits n p.stop ps

variable {l : List α} {cursor : Nat} {ps : List (Patch α)}

theorem Fits.le {n : Nat} (h : Fits n cursor ps) : cursor ≤ n := by
  induction ps generalizing cursor with
  | nil => exact h
  | cons p ps ih => exact Nat.le_trans h.1 (Nat.le_trans h.2.1 (ih h.2.2))

theorem Fits.cursor_le {n : Nat} (h : Fits n cursor ps) : ∀ p ∈ ps, cursor ≤ p.start := by
  induction ps generalizing cursor with
  | nil => exact fun p hp => by cases hp
  | cons p ps ih =>
    intro q hq
    rcases List.mem_cons.mp hq with rfl | hq
    · exact h.1
    · exact Nat.le_trans h.1 (Nat.le_trans h.2.1 (ih h.2.2 q hq))

theorem fits_of_pairwise {n : Nat} (hcursor : cursor ≤ n) (hfirst : ∀ p ∈ ps, cursor ≤ p.start)
    (hpair : ps.Pairwise fun p q => p.stop ≤ q.start) (hin : ∀ p ∈ ps, p.start ≤ p.stop ∧ p.stop ≤ n) :
    Fits n cursor ps := by
  induction ps generalizing cursor with
  | nil => exact hcursor
  | cons p ps ih =>
    obtain ⟨hp, hps⟩ := List.pairwise_cons.mp hpair
    obtain ⟨hle, hn⟩ := hin p List.mem_cons_self
    exact ⟨hfirst p List.mem_cons_self, hle, ih hn hp hps fun q hq => hin q (List.mem_cons_of_mem _ hq)⟩

theorem splice_ne_nil (hl : l ≠ []) (hps : ∀ p ∈ ps, p.text ≠ []) : splice l 0 ps ≠ [] := by
  cases ps with
  | nil => exact hl
  | cons p ps =>
    intro h
    simp only [splice, List.append_eq_nil_iff] at h
    exact hps p List.mem_cons_self h.1.2

/-! ### Gaps -/

/-- `g₀ s₁ g₁ … sₙ gₙ`. -/
def interleave : List (List α) → List (List α) → List α
  | [], segments => segments.flatten
  | gaps, [] => gaps.flatten
  | g :: gaps, s :: segments => g ++ s ++ interleave gaps segments

/-- What stands before, between and after the segments. -/
def gaps (l : List α) : Nat → List (Patch α) → List (List α)
  | cursor, [] => [l.drop cursor]
  | cursor, p :: ps => (l.drop cursor).take (p.start - cursor) :: gaps l p.stop ps

def Patch.segment (l : List α) (p : Patch α) : List α := (l.drop p.start).take (p.stop - p.start)

theorem length_gaps (l : List α) (cursor : Nat) (ps : List (Patch α)) :
    (gaps l cursor ps).length = ps.length + 1 := by
  induction ps generalizing cursor with
  | nil => rfl
  | cons p ps ih => rw [gaps, List.length_cons, ih, List.length_cons]

theorem splice_eq_interleave (l : List α) (cursor : Nat) (ps : List (Patch α)) :
    splice l cursor ps = interleave (gaps l cursor ps) (ps.map (·.text)) := by
  induction ps generalizing cursor with
  | nil => simp [splice, gaps, interleave]
  | cons p ps ih => rw [splice, gaps, List.map_cons, interleave, ih]

/-- With its own segments in the gaps the text is as it was. -/
theorem interleave_segments (hfits : Fits l.length cursor ps) :
    interleave (gaps l cursor ps) (ps.map (Patch.segment l)) = l.drop cursor := by
  induction ps generalizing cursor with
  | nil => simp [gaps, interleave]
  | cons p ps ih =>
    obtain ⟨hstart, hstop, hrest⟩ := hfits
    have hsegment : p.segment l ++ l.drop p.stop = l.drop p.start := by
      have hdrop : l.drop p.stop = (l.drop p.start).drop (p.stop - p.start) := by
        rw [List.drop_drop]
        congr 1
        omega
      rw [hdrop, Patch.segment, List.take_append_drop]
    have hgap : l.drop p.start = (l.drop cursor).drop (p.start - cursor) := by
      rw [List.drop_drop]
      congr 1
      omega
    rw [gaps, List.map_cons, interleave, ih hrest, List.append_assoc, hsegment, hgap, List.take_append_drop]

/-- A segment begins where the gaps and segments before it end. -/
theorem cursor_add_length_interleave (hfits : Fits l.length cursor ps) {i : Nat} {p : Patch α}
    (hp : ps[i]? = some p) :
    cursor + (interleave ((gaps l cursor ps).take (i + 1)) ((ps.map (Patch.segment l)).take i)).length = p.start := by
  induction ps generalizing cursor i with
  | nil => cases hp
  | cons q ps ih =>
    obtain ⟨hstart, hstop, hrest⟩ := hfits
    have hlen : q.stop ≤ l.length := hrest.le
    have hgap : ((l.drop cursor).take (q.start - cursor)).length = q.start - cursor := by
      rw [List.length_take, List.length_drop]
      omega
    cases i with
    | zero =>
      obtain rfl := Option.some.inj hp
      simp only [gaps, List.take_succ_cons, List.take_zero, interleave, List.flatten_cons, List.flatten_nil,
        List.append_nil, hgap]
      omega
    | succ i =>
      have hsegment : (q.segment l).length = q.stop - q.start := by
        rw [Patch.segment, List.length_take, List.length_drop]
        omega
      have hrec := ih hrest hp
      rw [gaps, List.map_cons, List.take_succ_cons, List.take_succ_cons, interleave, List.length_append,
        List.length_append, hgap, hsegment]
      omega

/-- The patches that put `news` in the place of the segments `olds` of `interleave gaps olds`. -/
def placed : Nat → List (List α) → List (List α) → List (List α) → List (Patch α)
  | cursor, g :: gaps, old :: olds, new :: news =>
    let start := cursor + g.length
    ⟨start, start + old.length, new⟩ :: placed (start + old.length) gaps olds news
  | _, _, _, _ => []

/-- Segments can be replaced in place, whatever they hold. -/
theorem splice_placed {gaps olds news : List (List α)} (hgaps : gaps.length = olds.length + 1)
    (hnews : news.length = olds.length) (before : List α) :
    splice (before ++ interleave gaps olds) before.length (placed before.length gaps olds news) =
      interleave gaps news := by
  induction olds generalizing gaps news before with
  | nil =>
    obtain rfl := List.length_eq_zero_iff.mp hnews
    rcases gaps with _ | ⟨g, gaps⟩
    · cases hgaps
    · simp [placed, splice, interleave]
  | cons old olds ih =>
    rcases gaps with _ | ⟨g, gaps⟩
    · cases hgaps
    rcases news with _ | ⟨new, news⟩
    · cases hnews
    have hrest := ih (Nat.succ.inj hgaps) (Nat.succ.inj hnews) (before ++ g ++ old)
    have htext : before ++ interleave (g :: gaps) (old :: olds) = before ++ g ++ old ++ interleave gaps olds := by
      simp only [interleave, List.append_assoc]
    have hlen : (before ++ g ++ old).length = before.length + g.length + old.length := by
      rw [List.length_append, List.length_append]
    rw [hlen, ← htext] at hrest
    rw [placed, splice, hrest, interleave, interleave, List.drop_left, Nat.add_sub_cancel_left,
      List.append_assoc g old, List.take_left]

/-! ### Patches that rewrite each element of their segment -/

/-- The patch holds its segment with `f` applied to each element. -/
def Patch.Maps (l : List α) (f : α → α) (p : Patch α) : Prop :=
  p.text = ((l.drop p.start).take (p.stop - p.start)).map f

/-- Outside the segments the text is as it was, and inside them `f` was applied. -/
theorem getElem?_splice {f : α → α} (hfits : Fits l.length cursor ps) (hmaps : ∀ p ∈ ps, p.Maps l f) (i : Nat) :
    (splice l cursor ps)[i]? = l[cursor + i]?.map fun x => if ∃ p ∈ ps, p.Has (cursor + i) then f x else x := by
  induction ps generalizing cursor i with
  | nil => simp [splice]
  | cons p ps ih =>
    obtain ⟨hstart, hstop, hrest⟩ := hfits
    have hmap : p.text = ((l.drop p.start).take (p.stop - p.start)).map f := hmaps p List.mem_cons_self
    have hafter : ∀ q ∈ ps, p.stop ≤ q.start := hrest.cursor_le
    have hlen : p.stop ≤ l.length := hrest.le
    rw [splice]
    -- The position stands before the segment, in it, or after it.
    by_cases hbefore : cursor + i < p.start
    · have hnone : ¬ ∃ q ∈ p :: ps, q.Has (cursor + i) := by
        rintro ⟨q, hq, hge, -⟩
        rcases List.mem_cons.mp hq with rfl | hq
        · omega
        · have := hafter q hq
          omega
      rw [List.append_assoc, List.getElem?_append_left (by simp; omega), List.getElem?_take, if_pos (by omega),
        List.getElem?_drop]
      simp only [hnone, if_false, Option.map_id']
    · by_cases hin : cursor + i < p.stop
      · have hsome : ∃ q ∈ p :: ps, q.Has (cursor + i) := ⟨p, List.mem_cons_self, by omega, hin⟩
        have hfirst : ((l.drop cursor).take (p.start - cursor)).length = p.start - cursor := by simp; omega
        rw [List.append_assoc, List.getElem?_append_right (by omega), hfirst,
          List.getElem?_append_left (by rw [hmap]; simp; omega), hmap, List.getElem?_map, List.getElem?_take,
          if_pos (by omega), List.getElem?_drop, show p.start + (i - (p.start - cursor)) = cursor + i by omega]
        simp only [hsome, if_true]
      · have hlong : ((l.drop cursor).take (p.start - cursor) ++ p.text).length = p.stop - cursor := by
          rw [hmap]
          simp
          omega
        have hsame : (∃ q ∈ p :: ps, q.Has (cursor + i)) ↔ ∃ q ∈ ps, q.Has (cursor + i) := by
          constructor
          · rintro ⟨q, hq, hhas⟩
            rcases List.mem_cons.mp hq with rfl | hq
            · exact absurd hhas.2 hin
            · exact ⟨q, hq, hhas⟩
          · rintro ⟨q, hq, hhas⟩
            exact ⟨q, List.mem_cons_of_mem _ hq, hhas⟩
        rw [List.getElem?_append_right (by omega), hlong, ih hrest fun q hq => hmaps q (List.mem_cons_of_mem _ hq),
          show p.stop + (i - (p.stop - cursor)) = cursor + i by omega]
        simp only [hsame]

end Splice
