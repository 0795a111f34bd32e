import PiiProxy.Masking.Strategies

/-! # Partial masks of numbers

`_mask_numeric_edges` counts the digits that `\d` finds and advances its counter where `str.isdigit` holds. The two
agree on a value exactly if it has no digit that is not decimal. -/

namespace PiiProxy.Masking

/-- The digit at `i` is one of the two first or of the two last of more than four. -/
def Stays (value : Str) (i : Nat) : Prop :=
  4 < value.countP isdecimal ∧
    ((value.take i).countP isdecimal < 2 ∨ (value.drop (i + 1)).countP isdecimal < 2)

instance (value : Str) (i : Nat) : Decidable (Stays value i) := inferInstanceAs (Decidable (_ ∧ _))

def edgeChar (value : Str) (i : Nat) (c : Char) : Char :=
  if isdecimal c = true ∧ ¬ Stays value i then fullMaskChar else c

/-- `masked` is the value with its decimal digits hidden, but for the edges of a long number. -/
structure EdgesKept (value masked : Str) : Prop where
  length : masked.length = value.length
  char : ∀ (i : Nat) c, value[i]? = some c → masked[i]? = some (edgeChar value i c)

/-- `str.isdigit` holds of no character of the value that `\d` does not find. -/
def OnlyDecimals (value : Str) : Prop := ∀ c ∈ value, isdigit c = true → isdecimal c = true

instance (value : Str) : Decidable (OnlyDecimals value) := inferInstanceAs (Decidable (∀ c ∈ value, _))

/-! ### Short numbers -/

theorem edgesKept_maskDigits {value : Str} (h : value.countP isdecimal ≤ 4) : EdgesKept value (maskDigits value) := by
  refine ⟨List.length_map _, fun i c hc => ?_⟩
  have hstays : ¬ Stays value i := fun hs => absurd hs.1 (Nat.not_lt.mpr h)
  rw [maskDigits, List.getElem?_map, hc, Option.map_some, edgeChar]
  simp only [hstays, not_false_eq_true, and_true]

/-! ### Long numbers -/

/-- After as many digits as stand before it, the next digit is the one that the list of digits has there. -/
theorem getElem?_digits (before : Str) (c : Char) (after : Str) (hc : isdecimal c = true) :
    ((before ++ c :: after).filter isdecimal)[before.countP isdecimal]? = some c := by
  rw [List.filter_append, List.filter_cons_of_pos hc, List.countP_eq_length_filter,
    List.getElem?_append_right (Nat.le_refl _), Nat.sub_self, List.getElem?_cons_zero]

theorem maskEdgeChar_decimal {before after : Str} {c : Char} (hlong : 4 < (before ++ c :: after).countP isdecimal)
    (hc : isdecimal c = true) (result : Str) :
    maskEdgeChar ((before ++ c :: after).filter isdecimal) (result, before.countP isdecimal) c =
      .ok (result ++ [edgeChar (before ++ c :: after) before.length c], before.countP isdecimal + 1) := by
  have htotal : (before ++ c :: after).countP isdecimal =
      before.countP isdecimal + (1 + after.countP isdecimal) := by
    rw [List.countP_append, List.countP_cons_of_pos hc, Nat.add_comm 1]
  have hstays : Stays (before ++ c :: after) before.length ↔
      before.countP isdecimal < numericVisibleEdge ∨
        before.countP isdecimal ≥ ((before ++ c :: after).filter isdecimal).length - numericVisibleEdge := by
    have hdrop : (before ++ c :: after).drop (before.length + 1) = after := by
      rw [← List.drop_drop, List.drop_left]
      rfl
    rw [Stays, List.take_left, hdrop, ← List.countP_eq_length_filter, numericVisibleEdge]
    omega
  rw [maskEdgeChar, isdigit_of_isdecimal hc, if_pos rfl, edgeChar]
  by_cases h : Stays (before ++ c :: after) before.length
  · rw [if_pos (hstays.mp h), getElem?_digits before c after hc, if_neg fun hno => hno.2 h]
  · rw [if_neg fun hedge => h (hstays.mpr hedge), if_pos ⟨hc, h⟩]

theorem maskEdgeChar_other {digits : Str} {c : Char} (hc : isdigit c = false) (acc : Str × Nat) :
    maskEdgeChar digits acc c = .ok (acc.1 ++ [c], acc.2) := by
  rw [maskEdgeChar, hc]
  rfl

/-- On decimal digits and other characters the loop writes what it should, one character for each. -/
theorem foldlM_maskEdgeChar {value : Str} (hlong : 4 < value.countP isdecimal) (honly : OnlyDecimals value)
    {before rest : Str} (hvalue : value = before ++ rest) (result : Str) :
    ∃ out index, rest.foldlM (maskEdgeChar (value.filter isdecimal)) (result, before.countP isdecimal) =
        .ok (result ++ out, index) ∧
      out.length = rest.length ∧
      ∀ (j : Nat) c, rest[j]? = some c → out[j]? = some (edgeChar value (before.length + j) c) := by
  induction rest generalizing before result with
  | nil => exact ⟨[], _, by rw [List.append_nil]; rfl, rfl, fun j c hc => by cases hc⟩
  | cons c rest ih =>
    have hstep : maskEdgeChar (value.filter isdecimal) (result, before.countP isdecimal) c =
        .ok (result ++ [edgeChar value before.length c], (before ++ [c]).countP isdecimal) := by
      rcases hc : isdecimal c with _ | _
      · have hdigit : isdigit c = false := by
          by_contra h
          have := honly c (by rw [hvalue]; simp) (Bool.not_eq_false _ ▸ h)
          rw [hc] at this
          cases this
        have hcount : (before ++ [c]).countP isdecimal = before.countP isdecimal := by
          simp [hc]
        rw [maskEdgeChar_other hdigit, hcount, edgeChar, hc]
        rfl
      · have hcount : (before ++ [c]).countP isdecimal = before.countP isdecimal + 1 := by
          simp [hc]
        rw [hcount, hvalue]
        exact maskEdgeChar_decimal (hvalue ▸ hlong) hc result
    have hvalue' : value = (before ++ [c]) ++ rest := by
      rw [hvalue, List.append_assoc]
      rfl
    obtain ⟨out, index, hfold, hlen, hchar⟩ := ih hvalue' (result ++ [edgeChar value before.length c])
    refine ⟨edgeChar value before.length c :: out, index, ?_, by rw [List.length_cons, hlen, List.length_cons], ?_⟩
    · rw [List.foldlM_cons, hstep]
      rw [List.append_assoc] at hfold
      exact hfold
    · intro j d hd
      rcases j with _ | j
      · obtain rfl := Option.some.inj hd
        rfl
      · have := hchar j d hd
        rw [List.length_append, List.length_singleton, Nat.add_assoc, Nat.add_comm 1 j] at this
        exact this

/-! ### Digits that are not decimal -/

/-- A digit that is not decimal is never written back in its place. -/
theorem only_decimals_of_edgesKept {value masked : Str} (hlong : 4 < value.countP isdecimal)
    (h : maskNumericEdges value = .ok masked) (hkept : EdgesKept value masked) : OnlyDecimals value := by
  intro c hc hdigit
  by_contra hdecimal
  rw [Bool.not_eq_true] at hdecimal
  obtain ⟨i, hi⟩ := List.mem_iff_getElem?.mp hc
  have hsame : masked[i]? = some c := by
    have hchar := hkept.char i c hi
    rw [edgeChar, hdecimal] at hchar
    exact hchar
  rw [maskNumericEdges] at h
  simp only [← List.countP_eq_length_filter, numericMinDigits, Nat.not_le.mpr hlong, if_false] at h
  rcases hf : value.foldlM (maskEdgeChar (value.filter isdecimal)) ([], 0) with err | acc
  · rw [hf] at h
    cases h
  · rw [hf] at h
    obtain rfl : acc.1 = masked := Except.ok.inj h
    obtain ⟨out, hout, hall⟩ := foldlM_maskEdgeChar_ok value hf
    rw [hout, List.nil_append] at hsame
    obtain ⟨hlen, hget⟩ := List.forall₂_iff_get.mp hall
    obtain ⟨hiv, rfl⟩ := List.getElem?_eq_some_iff.mp hi
    obtain ⟨hio, hwritten⟩ := List.getElem?_eq_some_iff.mp hsame
    have hcase := hget i hiv hio hdigit
    rw [List.get_eq_getElem, hwritten] at hcase
    rcases hcase with hmem | hstar
    · rw [(List.mem_filter.mp hmem).2] at hdecimal
      cases hdecimal
    · rw [hstar] at hdigit
      exact absurd hdigit (by decide)

/-- A partial mask of a number is what it should be exactly if the number is short or has decimal digits only. -/
theorem maskNumericEdges_iff (value : Str) :
    (∃ masked, maskNumericEdges value = .ok masked ∧ EdgesKept value masked) ↔
      value.countP isdecimal ≤ 4 ∨ OnlyDecimals value := by
  have hdigits : (value.filter isdecimal).length = value.countP isdecimal := List.countP_eq_length_filter.symm
  constructor
  · rintro ⟨masked, hmask, hkept⟩
    rcases Nat.lt_or_ge 4 (value.countP isdecimal) with hlong | hshort
    · exact Or.inr (only_decimals_of_edgesKept hlong hmask hkept)
    · exact Or.inl hshort
  · intro h
    rcases Nat.lt_or_ge 4 (value.countP isdecimal) with hlong | hshort
    · have honly : OnlyDecimals value := h.resolve_left (Nat.not_le.mpr hlong)
      obtain ⟨out, index, hfold, hlen, hchar⟩ := foldlM_maskEdgeChar hlong honly (List.nil_append value).symm []
      refine ⟨out, ?_, hlen, fun i c hc => ?_⟩
      · rw [maskNumericEdges]
        simp only [hdigits, numericMinDigits, Nat.not_le.mpr hlong, if_false]
        rw [List.countP_nil, List.nil_append] at hfold
        rw [hfold]
        rfl
      · have := hchar i c hc
        rwa [List.length_nil, Nat.zero_add] at this
    · refine ⟨maskDigits value, ?_, edgesKept_maskDigits hshort⟩
      rw [maskNumericEdges]
      simp only [hdigits, numericMinDigits, hshort, if_true]

theorem maskNumericEdges_superscript :
    maskNumericEdges "12345²".toList = .error (.other "IndexError") ∧
      ¬ ∃ masked, maskNumericEdges "12345²".toList = .ok masked ∧ EdgesKept "12345²".toList masked := by
  have hraises : maskNumericEdges "12345²".toList = .error (.other "IndexError") := by decide +kernel
  refine ⟨hraises, ?_⟩
  rintro ⟨masked, hmask, -⟩
  rw [hraises] at hmask
  cases hmask

end PiiProxy.Masking
