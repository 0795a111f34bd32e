import PiiProxy.Masking.Engine

/-! # What full masks reveal

Two texts that differ only in which letters and digits their masked spans hold get the same full mask. Every
decision of the engine is taken on offsets and types. -/

namespace PiiProxy.MaskingEngine
open Masking

/-- What the engine's decisions look at. -/
abbrev Outline := PIIType × Int × Int

def outline (e : PIIEntity) : Outline := (e.type, e.start, e.stop)

/-- The value of the entity is the slice of the text, where the text has one. -/
def Faithful (text : Str) (e : PIIEntity) : Prop :=
  0 ≤ e.start → e.stop ≤ text.length → e.value = slice text e.start.toNat e.stop.toNat

namespace Outline

def valid (length : Nat) (o : Outline) : Bool := 0 ≤ o.2.1 ∧ o.2.1 < o.2.2 ∧ o.2.2 ≤ length

def longestFirst (a b : Outline) : Prop := a.2.1 < b.2.1 ∨ a.2.1 = b.2.1 ∧ -(a.2.2 - a.2.1) ≤ -(b.2.2 - b.2.1)

instance : DecidableRel longestFirst := fun _ _ => inferInstanceAs (Decidable (_ ∨ _))

/-- The selection of the engine, on outlines. -/
def select (length : Nat) (outlines : List Outline) : List Outline :=
  Sweep.pass (fun last o => decide (o.2.1 < last.2.2)) (fun last _ => last)
    ((outlines.filter (valid length)).insertionSort longestFirst)

end Outline

theorem validSpan_eq {text : Str} {e : PIIEntity} (h : Faithful text e) :
    validSpan text e = Outline.valid text.length (outline e) := by
  have hiff : Outline.valid text.length (outline e) = true ↔ 0 ≤ e.start ∧ e.start < e.stop ∧ e.stop ≤ text.length :=
    decide_eq_true_iff
  rw [Bool.eq_iff_iff, validSpan_iff, hiff]
  constructor
  · rintro ⟨hstart, hlt, hstop, -⟩
    exact ⟨hstart, hlt, hstop⟩
  · rintro ⟨hstart, hlt, hstop⟩
    exact ⟨hstart, hlt, hstop, (h hstart hstop).symm⟩

theorem outlines_selectSpans {text : Str} {entities : List PIIEntity} (h : ∀ e ∈ entities, Faithful text e) :
    (selectSpans text entities).map outline = Outline.select text.length (entities.map outline) := by
  have hvalid : (entities.filter (validSpan text)).map outline =
      (entities.map outline).filter (Outline.valid text.length) := by
    rw [List.filter_map]
    exact congrArg _ (List.filter_congr fun e he => validSpan_eq (h e he))
  have hpass : ∀ l : List PIIEntity,
      (Sweep.pass (fun last entity => decide (entity.start < last.stop)) (fun last _ => last) l).map outline =
        Sweep.pass (fun last o => decide (o.2.1 < last.2.2)) (fun last _ => last) (l.map outline) :=
    Sweep.map_pass _ _ (fun _ _ => rfl) (fun _ _ => rfl)
  have hsort := List.map_insertionSort longestFirst Outline.longestFirst outline (entities.filter (validSpan text))
    fun _ _ _ _ => Iff.rfl
  rw [selectSpans_eq, hpass, hsort, hvalid]
  rfl

/-- The masked spans are a matter of the outlines and the length of the text. -/
theorem outlines_maskedEntities {text : Str} {entities : List PIIEntity} (h : ∀ e ∈ entities, Faithful text e)
    (contextRules : List ContextRule) :
    (maskedEntities text entities contextRules).map outline =
      let valid := Outline.select text.length (entities.map outline)
      valid.filter fun o => contextAllows o.1 (valid.map (·.1)).toFinset (resolveContextRules contextRules) := by
  have htypes : (selectSpans text entities).map (·.type) =
      (Outline.select text.length (entities.map outline)).map (·.1) := by
    rw [← outlines_selectSpans h, List.map_map]
    rfl
  rw [maskedEntities, htypes, ← outlines_selectSpans h, List.filter_map]
  rfl

section
variable {text₁ text₂ : Str} {entities₁ entities₂ : List PIIEntity} {contextRules : List ContextRule}
  {strategyByType₁ strategyByType₂ : OrderedDict PIIType MaskingStrategy}

theorem hidden_iff_outline {text : Str} {entities : List PIIEntity} {i : Nat} :
    Hidden text entities contextRules i ↔
      ∃ o ∈ (maskedEntities text entities contextRules).map outline, o.2.1 ≤ i ∧ i < o.2.2 := by
  simp only [Hidden, List.mem_map, exists_exists_and_eq_and, outline]

theorem hidden_congr (hlength : text₁.length = text₂.length) (houtline : entities₁.map outline = entities₂.map outline)
    (hvalue₁ : ∀ e ∈ entities₁, Faithful text₁ e) (hvalue₂ : ∀ e ∈ entities₂, Faithful text₂ e) (i : Nat) :
    Hidden text₁ entities₁ contextRules i ↔ Hidden text₂ entities₂ contextRules i := by
  rw [hidden_iff_outline, hidden_iff_outline, outlines_maskedEntities hvalue₁, outlines_maskedEntities hvalue₂, hlength,
    houtline]

/-- The characters look the same once letters and digits are hidden. -/
def SameShape (c d : Char) : Prop := isalnum c = isalnum d ∧ (isalnum c = false → c = d)

theorem hide_congr {c d : Char} (h : SameShape c d) : hide c = hide d := by
  obtain ⟨halnum, hother⟩ := h
  rcases hc : isalnum c with _ | _
  · rw [hother hc]
  · rw [hide, hide, ← halnum, hc]
    rfl

/-- The full mask of a text does not depend on which letters and digits it hides. -/
theorem mask_noninterference (tokenHex₁ tokenHex₂ : Nat → Str) (hlength : text₁.length = text₂.length)
    (houtline : entities₁.map outline = entities₂.map outline)
    (hvalue₁ : ∀ e ∈ entities₁, Faithful text₁ e) (hvalue₂ : ∀ e ∈ entities₂, Faithful text₂ e)
    (hfull₁ : ∀ type, strategyFor strategyByType₁ type = .fullMask)
    (hfull₂ : ∀ type, strategyFor strategyByType₂ type = .fullMask)
    (houtside : ∀ i, ¬ Hidden text₁ entities₁ contextRules i → text₁[i]? = text₂[i]?)
    (hinside : ∀ i, Hidden text₁ entities₁ contextRules i → ∀ c d, text₁[i]? = some c → text₂[i]? = some d →
      SameShape c d) :
    ∃ result₁ result₂, mask tokenHex₁ text₁ strategyByType₁ entities₁ contextRules = .ok result₁ ∧
      mask tokenHex₂ text₂ strategyByType₂ entities₂ contextRules = .ok result₂ ∧
      result₁.maskedText = result₂.maskedText := by
  have hmasked₁ : ∀ e ∈ maskedEntities text₁ entities₁ contextRules, strategyFor strategyByType₁ e.type = .fullMask :=
    fun e _ => hfull₁ e.type
  have hmasked₂ : ∀ e ∈ maskedEntities text₂ entities₂ contextRules, strategyFor strategyByType₂ e.type = .fullMask :=
    fun e _ => hfull₂ e.type
  obtain ⟨result₁, hok₁⟩ := mask_isOk hmasked₁ tokenHex₁
  obtain ⟨result₂, hok₂⟩ := mask_isOk hmasked₂ tokenHex₂
  refine ⟨result₁, result₂, hok₁, hok₂, List.ext_getElem? fun i => ?_⟩
  have hsame : Hidden text₁ entities₁ contextRules i ↔ Hidden text₂ entities₂ contextRules i :=
    hidden_congr hlength houtline hvalue₁ hvalue₂ i
  rw [getElem?_maskedText hmasked₁ hok₁, getElem?_maskedText hmasked₂ hok₂]
  by_cases hhidden : Hidden text₁ entities₁ contextRules i
  · simp only [hhidden, hsame.mp hhidden, if_true]
    -- Both texts end at the same place.
    rcases hc : text₁[i]? with _ | c
    · have hnone : text₂[i]? = none := by
        rw [List.getElem?_eq_none_iff] at hc ⊢
        omega
      rw [hnone]
    · obtain ⟨d, hd⟩ : ∃ d, text₂[i]? = some d := by
        have hi := (List.getElem?_eq_some_iff.mp hc).1
        exact ⟨_, List.getElem?_eq_getElem (by omega)⟩
      rw [hd, Option.map_some, Option.map_some, hide_congr (hinside i hhidden c d hc hd)]
  · have hhidden₂ : ¬ Hidden text₂ entities₂ contextRules i := fun h => hhidden (hsame.mpr h)
    simp only [hhidden, hhidden₂, if_false]
    rw [houtside i hhidden]

end

/-- Two phone numbers of the same form. -/
theorem mask_noninterference_phone :
    ∃ result₁ result₂,
      mask (fun _ => []) ['1', '-', '2'] OrderedDict.empty [⟨.phone, ['1', '-', '2'], 0, 3, 1, []⟩] [] = .ok result₁ ∧
      mask (fun _ => []) ['9', '-', '8'] OrderedDict.empty [⟨.phone, ['9', '-', '8'], 0, 3, 1, []⟩] [] = .ok result₂ ∧
      result₁.maskedText = result₂.maskedText := by
  refine mask_noninterference _ _ rfl rfl ?_ ?_ (fun _ => rfl) (fun _ => rfl) ?_ ?_
  · exact fun e he _ _ => by obtain rfl := List.mem_singleton.mp he; rfl
  · exact fun e he _ _ => by obtain rfl := List.mem_singleton.mp he; rfl
  · intro i hi
    match i with
    | 0 | 1 | 2 => exact absurd (by decide +kernel) hi
    | i + 3 => rfl
  · intro i _ c d hc hd
    match i with
    | 0 | 2 =>
      cases hc
      cases hd
      exact ⟨rfl, fun h => absurd h (by decide)⟩
    | 1 =>
      cases hc
      cases hd
      exact ⟨rfl, fun _ => rfl⟩
    | i + 3 => cases hc

end PiiProxy.MaskingEngine
