import PiiProxy.Lib.Replace

/-! Texts of plain pieces and markers. A marker stands between two symbols that it has nowhere else, and a plain piece
    lacks the first of them, so that a marker is found in such a text only where it is one of the pieces. Replacing one
    marker after the other by plain pieces then replaces each piece for itself. -/

namespace Markers
open Replace
variable {α : Type}

section
variable (first last : α)

def Plain (piece : List α) : Prop := first ∉ piece

def Marker (piece : List α) : Prop := ∃ body, piece = first :: (body ++ [last]) ∧ first ∉ body ∧ last ∉ body

end

variable {first last : α} {m m' piece l : List α} {pieces : List (List α)}

theorem Marker.ne_nil (h : Marker first last m) : m ≠ [] := by
  obtain ⟨body, rfl, -⟩ := h
  exact List.cons_ne_nil _ _

theorem Marker.not_plain (h : Marker first last m) : ¬ Plain first m := by
  obtain ⟨body, rfl, -⟩ := h
  exact fun hplain => hplain List.mem_cons_self

/-- What stands before the first of the symbols. -/
theorem before_eq {a b c d : List α} (ha : last ∉ a) (hb : last ∉ b) (h : a ++ last :: c = b ++ last :: d) :
    a = b ∧ c = d := by
  induction a generalizing b with
  | nil =>
    cases b with
    | nil => exact ⟨rfl, (List.cons.inj h).2⟩
    | cons y b => exact absurd ((List.cons.inj h).1 ▸ List.mem_cons_self) hb
  | cons x a ih =>
    cases b with
    | nil => exact absurd ((List.cons.inj h).1 ▸ List.mem_cons_self) ha
    | cons y b =>
      obtain ⟨rfl, hrest⟩ := List.cons.inj h
      obtain ⟨rfl, hafter⟩ := ih (fun hmem => ha (List.mem_cons_of_mem _ hmem))
        (fun hmem => hb (List.mem_cons_of_mem _ hmem)) hrest
      exact ⟨rfl, hafter⟩

/-- Two markers with which the same text begins are the same. -/
theorem Marker.eq_of_prefix (h : Marker first last m) (h' : Marker first last m') (hstarts : m <+: m' ++ l) : m = m' := by
  obtain ⟨body, rfl, -, hbody⟩ := h
  obtain ⟨body', rfl, -, hbody'⟩ := h'
  obtain ⟨rest, hrest⟩ := hstarts
  have hsplit : body ++ last :: rest = body' ++ last :: l := by
    simpa using hrest
  obtain ⟨rfl, -⟩ := before_eq hbody hbody' hsplit
  rfl

variable [BEq α] [LawfulBEq α] {old new : List α}

/-- Where the first symbol is missing, nothing is replaced. -/
theorem scan_plain (hold : Marker first last old) (hplain : Plain first piece) :
    scan old new 0 (piece ++ l) = piece ++ scan old new 0 l := by
  induction piece with
  | nil => rfl
  | cons c piece ih =>
    obtain ⟨hc, hpiece⟩ := not_or.mp fun h => hplain (List.mem_cons.mpr h)
    obtain ⟨body, rfl, -⟩ := hold
    have hmiss : ¬ (first :: (body ++ [last])).isPrefixOf (c :: (piece ++ l)) = true := fun hfound =>
      hc (List.cons_prefix_cons.mp (List.isPrefixOf_iff_prefix.mp hfound)).1
    rw [List.cons_append, scan, if_neg hmiss, ih hpiece, List.cons_append]

/-- Another marker stays. -/
theorem scan_marker (hne : first ≠ last) (hold : Marker first last old) (hm : Marker first last m) (hdiffer : m ≠ old) :
    scan old new 0 (m ++ l) = m ++ scan old new 0 l := by
  have hmiss : ¬ old <+: m ++ l := fun hfound => hdiffer (hold.eq_of_prefix hm hfound).symm
  obtain ⟨body, rfl, hbody, -⟩ := hm
  have hrest : Plain first (body ++ [last]) := by
    intro hmem
    rcases List.mem_append.mp hmem with hmem | hmem
    · exact hbody hmem
    · exact hne (List.mem_singleton.mp hmem)
  rw [List.cons_append] at hmiss ⊢
  rw [scan, if_neg fun hfound => hmiss (List.isPrefixOf_iff_prefix.mp hfound), scan_plain hold hrest, List.cons_append]

/-- A text of plain pieces and markers. -/
def Composed (first last : α) (pieces : List (List α)) : Prop :=
  ∀ piece ∈ pieces, Plain first piece ∨ Marker first last piece

theorem scan_flatten (hne : first ≠ last) (hold : Marker first last old) (h : Composed first last pieces) :
    scan old new 0 pieces.flatten = (pieces.map fun piece => if piece == old then new else piece).flatten := by
  induction pieces with
  | nil => rfl
  | cons piece pieces ih =>
    have hpieces := ih fun p hp => h p (List.mem_cons_of_mem _ hp)
    rw [List.flatten_cons, List.map_cons, List.flatten_cons]
    by_cases hsame : piece = old
    · subst hsame
      rw [scan_found hold.ne_nil, hpieces, if_pos (beq_self_eq_true piece)]
    · rw [if_neg fun heq => hsame (eq_of_beq heq)]
      rcases h piece List.mem_cons_self with hplain | hmarker
      · rw [scan_plain hold hplain, hpieces]
      · rw [scan_marker hne hold hmarker hsame, hpieces]

/-- What a piece becomes, by the first pair that is for it. -/
def translate (pairs : List (List α × List α)) (piece : List α) : List α := (pairs.lookup piece).getD piece

omit [LawfulBEq α] in
theorem translate_nil (piece : List α) : translate [] piece = piece := rfl

theorem translate_plain {pairs : List (List α × List α)} (hpairs : ∀ pair ∈ pairs, Marker first last pair.1)
    (hplain : Plain first piece) : translate pairs piece = piece := by
  have hnone : pairs.lookup piece = none := by
    rw [List.lookup_eq_none_iff]
    intro pair hpair
    rw [bne_iff_ne]
    rintro rfl
    exact (hpairs pair hpair).not_plain hplain
  rw [translate, hnone]
  rfl

theorem translate_of_mem {pairs : List (List α × List α)} {pair : List α × List α} (hnodup : (pairs.map Prod.fst).Nodup)
    (h : pair ∈ pairs) : translate pairs pair.1 = pair.2 := by
  induction pairs with
  | nil => cases h
  | cons q pairs ih =>
    rw [List.map_cons, List.nodup_cons] at hnodup
    rw [translate, List.lookup_cons]
    rcases List.mem_cons.mp h with rfl | h
    · rw [beq_self_eq_true]
      rfl
    · have hne : (pair.1 == q.1) = false := by
        rw [beq_eq_false_iff_ne]
        exact fun hsame => hnodup.1 (hsame ▸ List.mem_map_of_mem h)
      rw [hne]
      exact ih hnodup.2 h

/-- Replacing the markers in turn, in the whole text, is the translation of the pieces. -/
theorem foldl_scan (hne : first ≠ last) {pairs : List (List α × List α)}
    (hpairs : ∀ pair ∈ pairs, Marker first last pair.1 ∧ Plain first pair.2) (h : Composed first last pieces) :
    pairs.foldl (fun text pair => scan pair.1 pair.2 0 text) pieces.flatten = (pieces.map (translate pairs)).flatten := by
  induction pairs generalizing pieces with
  | nil =>
    rw [List.foldl_nil, List.map_congr_left fun piece _ => translate_nil piece, List.map_id']
  | cons pair pairs ih =>
    obtain ⟨hmarker, hplain⟩ := hpairs pair List.mem_cons_self
    have hrest := fun p hp => hpairs p (List.mem_cons_of_mem _ hp)
    rw [List.foldl_cons, scan_flatten hne hmarker h, ih hrest, List.map_map]
    · refine congrArg List.flatten (List.map_congr_left fun piece _ => ?_)
      rw [Function.comp_apply, translate, translate, List.lookup_cons]
      by_cases hsame : piece == pair.1
      · rw [if_pos hsame, hsame]
        exact translate_plain (fun p hp => (hrest p hp).1) hplain
      · rw [if_neg hsame, Bool.eq_false_iff.mpr hsame]
    · intro piece hpiece
      obtain ⟨before, hbefore, rfl⟩ := List.mem_map.mp hpiece
      by_cases hsame : before == pair.1
      · rw [if_pos hsame]
        exact Or.inl hplain
      · rw [if_neg hsame]
        exact h before hbefore

end Markers
