import PiiProxy.Masking.Engine

/-! # What a mask leaves between the masked spans

A mask keeps the text between the spans that it replaces, whatever entities it is given, and its mappings name
every replacement in the order in which they stand. -/

namespace PiiProxy.MaskingEngine
open Masking Splice

/-- With these gaps `text` is `g₀ v₁ g₁ … vₙ gₙ` and the masked text is `g₀ r₁ g₁ … rₙ gₙ`. -/
structure Substitutes (text : Str) (entities : List PIIEntity) (result : MaskingResult) (gaps : List Str) : Prop where
  count : gaps.length = result.mappings.length + 1
  original : text = interleave gaps (result.mappings.map (·.2))
  masked : result.maskedText = interleave gaps (result.mappings.map (·.1))
  place : ∀ (i : Nat) r v, result.mappings[i]? = some (r, v) → ∃ e ∈ entities, e.value = v ∧
    e.start = (interleave (gaps.take (i + 1)) ((result.mappings.map (·.2)).take i)).length ∧ e.stop = e.start + v.length
  restored : splice result.maskedText 0 (placed 0 gaps (result.mappings.map (·.1)) (result.mappings.map (·.2))) = text

/-- Masking replaces exactly the spans that it records, and fails only where the strategy of such a span fails. -/
theorem mask_substitutes (tokenHex : Nat → Str) (text : Str) (strategyByType : OrderedDict PIIType MaskingStrategy)
    (entities : List PIIEntity) (contextRules : List ContextRule) :
    match mask tokenHex text strategyByType entities contextRules with
    | .ok result => ∃ gaps, Substitutes text entities result gaps
    | .error err => ∃ e ∈ entities, ∃ token, (strategyFor strategyByType e.type).mask token e = .error err := by
  cases h : mask tokenHex text strategyByType entities contextRules with
  | error err =>
    obtain ⟨e, he, hmask⟩ := mask_error h
    exact ⟨e, (of_mem_selectSpans (List.mem_filter.mp he).1).1, hmask⟩
  | ok result =>
    obtain ⟨replacements, hall, hmap, htext⟩ := mask_ok h
    have hlen : replacements.length = (maskedEntities text entities contextRules).length := hall.length_eq.symm
    obtain ⟨horiginal, hmasked⟩ := interleave_mappings hlen hmap htext
    have hcount : (gapsOf text (maskedEntities text entities contextRules)).length = result.mappings.length + 1 := by
      rw [gapsOf, length_gaps, List.length_map, hmap, List.length_zipWith, hlen, Nat.min_self]
    refine ⟨gapsOf text (maskedEntities text entities contextRules), hcount, horiginal, hmasked, ?_, ?_⟩
    · intro i r v hi
      rw [hmap, List.getElem?_zipWith_eq_some] at hi
      obtain ⟨e, r', he, hr, heq⟩ := hi
      obtain ⟨rfl, rfl⟩ := Prod.mk.inj heq
      have hmem : e ∈ maskedEntities text entities contextRules := List.mem_of_getElem? he
      obtain ⟨hstart, hlt, hstop, hvalue⟩ := validSpan_of_masked hmem
      have hpatch : (List.zipWith patchOf (maskedEntities text entities contextRules) replacements)[i]? =
          some (patchOf e r') := List.getElem?_zipWith_eq_some.mpr ⟨e, r', he, hr, rfl⟩
      have hplace := cursor_add_length_interleave (fits_patches hlen) hpatch
      rw [gaps_patches hlen, ← gapsOf, segments_patches hlen, ← values_mappings hlen, ← hmap, Nat.zero_add] at hplace
      have hlength : e.value.length = e.stop.toNat - e.start.toNat := by
        rw [← hvalue]
        exact length_slice (by omega)
      refine ⟨e, (of_mem_selectSpans (List.mem_filter.mp hmem).1).1, rfl, ?_, ?_⟩
      · rw [hplace]
        simp only [patchOf]
        omega
      · omega
    · have hmaps : (result.mappings.map (·.2)).length = (result.mappings.map (·.1)).length := by
        rw [List.length_map, List.length_map]
      have hback := splice_placed (hcount.trans (congrArg (· + 1) (List.length_map _).symm)) hmaps []
      rw [List.nil_append, ← hmasked, ← horiginal] at hback
      exact hback

end PiiProxy.MaskingEngine
