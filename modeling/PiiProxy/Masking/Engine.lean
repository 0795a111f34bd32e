import Mathlib.Data.Finset.Basic
import Mathlib.Data.List.Sort
import PiiProxy.Lib.Splice
import PiiProxy.Lib.Sweep
import PiiProxy.Masking.Strategies
import PiiProxy.Policies.Models

/-! The masking engine (`app/masking/engine.py`): applies strategies to PII spans. -/

namespace PiiProxy

structure MaskingResult where
  maskedText : Str
  entities : List PIIEntity
  mappings : List (Str × Str)
  deriving DecidableEq, Repr

namespace MaskingEngine
open Masking

/-- A PII type is masked when one of the types that it requires is present. -/
abbrev ContextRules := OrderedDict PIIType (Finset PIIType)

/-- `CONTEXT_REQUIRES` -/
def contextRequires : ContextRules := OrderedDict.empty

def parseRuleType (rule : ContextRule) : Option PIIType :=
  match rule.get? "type".toList with
  | some (.str rawType) => PIIType.ofValue? rawType
  | _ => none

/-- `PIIType(raw_req)` of a YAML value. -/
def parseType : Yaml → Option PIIType
  | .str raw => PIIType.ofValue? raw
  | _ => none

def parseRequiredTypes : Option Yaml → Option (Finset PIIType)
  | some (.list []) => none
  | some (.list rawRequired) => (rawRequired.mapM parseType).map List.toFinset
  | _ => none

/-- One pass of the loop over the rules of the policy. -/
def addRule (rules : ContextRules) (rule : ContextRule) : ContextRules :=
  match parseRuleType rule with
  | none => rules
  | some type =>
    match rule.get? "enabled".toList with
    | some (.bool false) => rules.set type ∅
    | _ =>
      match parseRequiredTypes (rule.get? "requires".toList) with
      | some required => rules.set type required
      | none => rules

def resolveContextRules (contextRules : List ContextRule) : ContextRules :=
  if contextRules.isEmpty then contextRequires
  else
    let rules := contextRules.foldl addRule OrderedDict.empty
    -- Every rule was skipped.
    if rules.length = 0 then contextRequires else rules

def contextAllows (type : PIIType) (presentTypes : Finset PIIType) (rules : ContextRules) : Bool :=
  match rules.get? type with
  | none => true
  | some required => required = ∅ ∨ (required ∩ presentTypes).Nonempty

/-- The checks that an entity must pass: its span lies in the text and holds its value. -/
def validSpan (text : Str) (e : PIIEntity) : Bool :=
  !(e.start < 0 || e.stop > text.length || e.start ≥ e.stop) && slice text e.start.toNat e.stop.toNat == e.value

/-- The order of `valid.sort(key=lambda e: (e.start, -(e.end - e.start)))`. -/
def longestFirst (a b : PIIEntity) : Prop :=
  a.start < b.start ∨ a.start = b.start ∧ -(a.stop - a.start) ≤ -(b.stop - b.start)

instance : DecidableRel longestFirst := fun _ _ => inferInstanceAs (Decidable (_ ∨ _))

/-- One pass of the loop that fills `selected`. -/
def selectStep (selected : List PIIEntity) (entity : PIIEntity) : List PIIEntity :=
  match selected.getLast? with
  | some last => if entity.start < last.stop then selected else selected ++ [entity]
  | none => selected ++ [entity]

def selectSpans (text : Str) (entities : List PIIEntity) : List PIIEntity :=
  ((entities.filter (validSpan text)).insertionSort longestFirst).foldl selectStep []

/-- What the loop over the spans builds. -/
structure Assembly where
  pieces : List Str := []
  mappings : List (Str × Str) := []
  cursor : Nat := 0

section Mask
variable (tokenHex : Nat → Str) (text : Str) (strategyByType : OrderedDict PIIType MaskingStrategy)

def strategyFor (type : PIIType) : MaskingStrategy := (strategyByType.get? type).getD .fullMask

/-- One pass of the loop over the spans. `tokenHex n` is what `secrets.token_hex` returns for the span that is
    masked after `n` others. -/
def maskStep (allows : PIIType → Bool) (acc : Assembly) (entity : PIIEntity) : Except PIIProxyError Assembly := do
  if !allows entity.type then return acc
  let replacement ← (strategyFor strategyByType entity.type).mask (tokenHex acc.mappings.length) entity
  return {
    pieces := acc.pieces ++ [slice text acc.cursor entity.start.toNat, replacement]
    mappings := acc.mappings ++ [(replacement, entity.value)]
    cursor := entity.stop.toNat }

def mask (entities : List PIIEntity) (contextRules : List ContextRule) : Except PIIProxyError MaskingResult := do
  let valid := selectSpans text entities
  let rules := resolveContextRules contextRules
  let presentTypes := (valid.map (·.type)).toFinset
  let ordered := valid.insertionSort fun a b => a.start ≤ b.start
  let acc ← ordered.foldlM (maskStep tokenHex text strategyByType fun type => contextAllows type presentTypes rules) {}
  return {
    maskedText := acc.pieces.flatten ++ text.drop acc.cursor
    entities := valid
    mappings := acc.mappings }

end Mask

/-! ### The spans that are selected -/

section Select
variable {text : Str} {entities : List PIIEntity}

theorem validSpan_iff {e : PIIEntity} :
    validSpan text e = true ↔
      0 ≤ e.start ∧ e.start < e.stop ∧ e.stop ≤ text.length ∧ slice text e.start.toNat e.stop.toNat = e.value := by
  simp only [validSpan, Bool.and_eq_true, Bool.not_eq_true', Bool.or_eq_false_iff, decide_eq_false_iff_not, not_lt,
    gt_iff_lt, ge_iff_le, not_le, beq_iff_eq]
  tauto

/-- The loop is a pass in which the span already selected always wins. -/
theorem selectStep_eq :
    selectStep = Sweep.step (fun last entity => decide (entity.start < last.stop)) fun last _ => last := by
  funext selected entity
  unfold selectStep Sweep.step
  cases h : selected.getLast? with
  | none => rfl
  | some last => simp [List.dropLast_append_getLast? last h]

theorem selectSpans_eq (text : Str) (entities : List PIIEntity) :
    selectSpans text entities = Sweep.pass (fun last entity => decide (entity.start < last.stop)) (fun last _ => last)
      ((entities.filter (validSpan text)).insertionSort longestFirst) := by
  rw [selectSpans, selectStep_eq]
  exact Sweep.foldl_step _ _ _

theorem of_mem_selectSpans {e : PIIEntity} (h : e ∈ selectSpans text entities) :
    e ∈ entities ∧ validSpan text e = true := by
  rw [selectSpans_eq] at h
  have hmem := Sweep.mem_of_mem_pass (fun _ _ => Or.inl rfl) h
  exact List.mem_filter.mp ((List.mem_insertionSort _).mp hmem)

theorem longestFirst_trans {a b c : PIIEntity} (h₁ : longestFirst a b) (h₂ : longestFirst b c) : longestFirst a c := by
  simp only [longestFirst] at *
  omega

theorem longestFirst_total (a b : PIIEntity) : longestFirst a b ∨ longestFirst b a := by
  simp only [longestFirst]
  omega

instance : IsTrans PIIEntity longestFirst := ⟨fun _ _ _ => longestFirst_trans⟩
instance : Std.Total longestFirst := ⟨longestFirst_total⟩

theorem pairwise_selectSpans (text : Str) (entities : List PIIEntity) :
    (selectSpans text entities).Pairwise fun a b => a.stop ≤ b.start := by
  rw [selectSpans_eq]
  refine Sweep.pass_pairwise (fun _ _ => Or.inl rfl) (r := longestFirst) ?_ (List.pairwise_insertionSort _ _) ?_
  · intro a b h
    rcases h with h | ⟨h, -⟩
    · exact Int.le_of_lt h
    · exact Int.le_of_eq h
  · intro x e _ _ hgap
    exact Int.not_lt.mp (of_decide_eq_false hgap)

/-- Valid spans that stand apart, in order, are all selected. -/
theorem selectSpans_eq_self (hvalid : ∀ e ∈ entities, validSpan text e = true)
    (hpair : entities.Pairwise fun a b => a.stop ≤ b.start) : selectSpans text entities = entities := by
  have hsorted : entities.Pairwise longestFirst := by
    refine hpair.imp_of_mem fun {a b} ha hb hab => Or.inl ?_
    have := (validSpan_iff.mp (hvalid a ha)).2.1
    exact Int.lt_of_lt_of_le this hab
  rw [selectSpans_eq, List.filter_eq_self.mpr hvalid, hsorted.insertionSort_eq]
  exact Sweep.pass_eq_self (hpair.imp fun hab => decide_eq_false (Int.not_lt.mpr hab))

end Select

/-! ### What the engine writes -/

section Result
variable {tokenHex : Nat → Str} {text : Str} {strategyByType : OrderedDict PIIType MaskingStrategy}
  {entities : List PIIEntity} {contextRules : List ContextRule}

/-- The entities that are replaced: those selected, of a type that the context rules allow. -/
def maskedEntities (text : Str) (entities : List PIIEntity) (contextRules : List ContextRule) : List PIIEntity :=
  let valid := selectSpans text entities
  valid.filter fun e => contextAllows e.type (valid.map (·.type)).toFinset (resolveContextRules contextRules)

/-- `replacement` is what the strategy of its type makes of the entity. -/
def Replaces (strategyByType : OrderedDict PIIType MaskingStrategy) (e : PIIEntity) (replacement : Str) : Prop :=
  ∃ token, (strategyFor strategyByType e.type).mask token e = .ok replacement

def patchOf (e : PIIEntity) (replacement : Str) : Splice.Patch Char := ⟨e.start.toNat, e.stop.toNat, replacement⟩

/-- The replacements of the spans, of which the first is masked after `n` others. -/
def masksFrom (tokenHex : Nat → Str) (strategyByType : OrderedDict PIIType MaskingStrategy) :
    Nat → List PIIEntity → Except PIIProxyError (List Str)
  | _, [] => .ok []
  | n, e :: es => do
    let replacement ← (strategyFor strategyByType e.type).mask (tokenHex n) e
    let replacements ← masksFrom tokenHex strategyByType (n + 1) es
    return replacement :: replacements

theorem replaces_of_masks {n : Nat} {es : List PIIEntity} {replacements : List Str}
    (h : masksFrom tokenHex strategyByType n es = .ok replacements) :
    List.Forall₂ (Replaces strategyByType) es replacements := by
  induction es generalizing n replacements with
  | nil =>
    cases h
    exact List.Forall₂.nil
  | cons e es ih =>
    rw [masksFrom] at h
    rcases hmask : (strategyFor strategyByType e.type).mask (tokenHex n) e with err | replacement
    · rw [hmask] at h
      cases h
    · rw [hmask] at h
      rcases hrest : masksFrom tokenHex strategyByType (n + 1) es with err | rest
      · simp [hrest, bind, Except.bind] at h
      · simp only [hrest, bind, Except.bind, pure, Except.pure] at h
        obtain rfl := Except.ok.inj h
        exact List.Forall₂.cons ⟨_, hmask⟩ (ih hrest)

theorem masks_error {n : Nat} {es : List PIIEntity} {err : PIIProxyError}
    (h : masksFrom tokenHex strategyByType n es = .error err) :
    ∃ e ∈ es, ∃ token, (strategyFor strategyByType e.type).mask token e = .error err := by
  induction es generalizing n with
  | nil => cases h
  | cons e es ih =>
    rw [masksFrom] at h
    rcases hmask : (strategyFor strategyByType e.type).mask (tokenHex n) e with err' | replacement
    · rw [hmask] at h
      obtain rfl := Except.error.inj h
      exact ⟨e, List.mem_cons_self, _, hmask⟩
    · rw [hmask] at h
      rcases hrest : masksFrom tokenHex strategyByType (n + 1) es with err' | rest
      · simp only [hrest, bind, Except.bind] at h
        obtain rfl := Except.error.inj h
        obtain ⟨x, hx, hfails⟩ := ih hrest
        exact ⟨x, List.mem_cons_of_mem _ hx, hfails⟩
      · simp [hrest, bind, Except.bind, pure, Except.pure] at h

/-- The loop fails where a replacement fails, and otherwise puts the replacements in the places of their spans. -/
theorem foldlM_maskStep_spec (tokenHex : Nat → Str) (text : Str) (strategyByType : OrderedDict PIIType MaskingStrategy)
    (allows : PIIType → Bool) (l : List PIIEntity) (acc : Assembly) :
    match masksFrom tokenHex strategyByType acc.mappings.length (l.filter fun e => allows e.type) with
    | .error err => l.foldlM (maskStep tokenHex text strategyByType allows) acc = .error err
    | .ok replacements => ∃ acc', l.foldlM (maskStep tokenHex text strategyByType allows) acc = .ok acc' ∧
      acc'.mappings =
        acc.mappings ++ List.zipWith (fun e r => (r, e.value)) (l.filter fun e => allows e.type) replacements ∧
      acc'.pieces.flatten ++ text.drop acc'.cursor = acc.pieces.flatten ++
        Splice.splice text acc.cursor (List.zipWith patchOf (l.filter fun e => allows e.type) replacements) := by
  induction l generalizing acc with
  | nil => exact ⟨acc, rfl, by simp, rfl⟩
  | cons e l ih =>
    rw [List.foldlM_cons]
    cases hallows : allows e.type with
    | false =>
      have hstep : maskStep tokenHex text strategyByType allows acc e = .ok acc := by
        simp [maskStep, hallows, pure, Except.pure]
      rw [hstep, List.filter_cons_of_neg (by simp [hallows])]
      exact ih acc
    | true =>
      rw [List.filter_cons_of_pos (by simp [hallows]), masksFrom]
      cases hmask : (strategyFor strategyByType e.type).mask (tokenHex acc.mappings.length) e with
      | error err => simp [maskStep, hallows, hmask, bind, Except.bind]
      | ok replacement =>
        have hstep : maskStep tokenHex text strategyByType allows acc e = .ok
            { pieces := acc.pieces ++ [slice text acc.cursor e.start.toNat, replacement]
              mappings := acc.mappings ++ [(replacement, e.value)], cursor := e.stop.toNat } := by
          simp [maskStep, hallows, hmask, bind, Except.bind, pure, Except.pure]
        rw [hstep]
        have hrest := ih
          { pieces := acc.pieces ++ [slice text acc.cursor e.start.toNat, replacement]
            mappings := acc.mappings ++ [(replacement, e.value)], cursor := e.stop.toNat }
        simp only [List.length_append, List.length_singleton] at hrest
        simp only [bind, Except.bind]
        cases hmasks : masksFrom tokenHex strategyByType (acc.mappings.length + 1) (l.filter fun e => allows e.type) with
        | error err =>
          rw [hmasks] at hrest
          exact hrest
        | ok replacements =>
          rw [hmasks] at hrest
          obtain ⟨acc', hloop, hmap, htext⟩ := hrest
          refine ⟨acc', hloop, ?_, ?_⟩
          · rw [hmap, List.zipWith_cons_cons, List.append_assoc, List.singleton_append]
          · rw [htext, List.zipWith_cons_cons, Splice.splice]
            simp [slice, patchOf, List.append_assoc]

theorem ordered_eq (text : Str) (entities : List PIIEntity) :
    ((selectSpans text entities).insertionSort fun a b => a.start ≤ b.start) = selectSpans text entities := by
  refine List.Pairwise.insertionSort_eq ?_
  refine (pairwise_selectSpans text entities).imp_of_mem fun {a b} ha _ hab => ?_
  have := (validSpan_iff.mp (of_mem_selectSpans ha).2).2.1
  exact Int.le_trans (Int.le_of_lt this) hab

/-- Masking fails where a replacement fails. Otherwise the masked text is the text with the replacements in the places of
    their spans, and the mappings are the replacements made. -/
theorem mask_spec (tokenHex : Nat → Str) (text : Str) (strategyByType : OrderedDict PIIType MaskingStrategy)
    (entities : List PIIEntity) (contextRules : List ContextRule) :
    match masksFrom tokenHex strategyByType 0 (maskedEntities text entities contextRules) with
    | .error err => mask tokenHex text strategyByType entities contextRules = .error err
    | .ok replacements => ∃ result, mask tokenHex text strategyByType entities contextRules = .ok result ∧
      result.mappings =
        List.zipWith (fun e r => (r, e.value)) (maskedEntities text entities contextRules) replacements ∧
      result.maskedText =
        Splice.splice text 0 (List.zipWith patchOf (maskedEntities text entities contextRules) replacements) := by
  simp only [mask, ordered_eq]
  have hloop := foldlM_maskStep_spec tokenHex text strategyByType
    (fun type => contextAllows type ((selectSpans text entities).map (·.type)).toFinset (resolveContextRules contextRules))
    (selectSpans text entities) {}
  rw [← maskedEntities] at hloop
  dsimp only [List.length_nil] at hloop
  cases hmasks : masksFrom tokenHex strategyByType 0 (maskedEntities text entities contextRules) with
  | error err =>
    rw [hmasks] at hloop
    rw [hloop]
    rfl
  | ok replacements =>
    rw [hmasks] at hloop
    obtain ⟨acc, hacc, hmap, htext⟩ := hloop
    rw [hacc]
    exact ⟨_, rfl, hmap, htext⟩

theorem mask_ok {result : MaskingResult} (h : mask tokenHex text strategyByType entities contextRules = .ok result) :
    ∃ replacements,
      List.Forall₂ (Replaces strategyByType) (maskedEntities text entities contextRules) replacements ∧
      result.mappings =
        List.zipWith (fun e r => (r, e.value)) (maskedEntities text entities contextRules) replacements ∧
      result.maskedText =
        Splice.splice text 0 (List.zipWith patchOf (maskedEntities text entities contextRules) replacements) := by
  have hspec := mask_spec tokenHex text strategyByType entities contextRules
  cases hmasks : masksFrom tokenHex strategyByType 0 (maskedEntities text entities contextRules) with
  | error err =>
    rw [hmasks, h] at hspec
    cases hspec
  | ok replacements =>
    rw [hmasks, h] at hspec
    obtain ⟨_, hresult, hmap, htext⟩ := hspec
    obtain rfl := Except.ok.inj hresult
    exact ⟨replacements, replaces_of_masks hmasks, hmap, htext⟩

theorem validSpan_of_masked {e : PIIEntity} (h : e ∈ maskedEntities text entities contextRules) :
    0 ≤ e.start ∧ e.start < e.stop ∧ e.stop ≤ text.length ∧ slice text e.start.toNat e.stop.toNat = e.value :=
  validSpan_iff.mp (of_mem_selectSpans (List.mem_filter.mp h).1).2

theorem value_ne_nil {e : PIIEntity} (h : e ∈ maskedEntities text entities contextRules) : e.value ≠ [] := by
  obtain ⟨hstart, hlt, hstop, hvalue⟩ := validSpan_of_masked h
  intro hnil
  have hlen : (slice text e.start.toNat e.stop.toNat).length = e.stop.toNat - e.start.toNat := length_slice (by omega)
  rw [hvalue, hnil, List.length_nil] at hlen
  omega

theorem replacements_ne_nil {replacements : List Str}
    (hall : List.Forall₂ (Replaces strategyByType) (maskedEntities text entities contextRules) replacements) :
    ∀ r ∈ replacements, r ≠ [] := by
  have hmem : ∀ e ∈ maskedEntities text entities contextRules, e.value ≠ [] := fun e he => value_ne_nil he
  generalize maskedEntities text entities contextRules = l at hall hmem
  induction hall with
  | nil => exact fun r hr => by cases hr
  | cons hr _ ih =>
    obtain ⟨token, hmask⟩ := hr
    exact List.forall_mem_cons.mpr ⟨MaskingStrategy.mask_ne_nil (hmem _ List.mem_cons_self) hmask,
      ih fun e he => hmem e (List.mem_cons_of_mem _ he)⟩

theorem maskedText_ne_nil {result : MaskingResult}
    (h : mask tokenHex text strategyByType entities contextRules = .ok result) (htext : text ≠ []) :
    result.maskedText ≠ [] := by
  obtain ⟨replacements, hall, -, hmasked⟩ := mask_ok h
  rw [hmasked]
  refine Splice.splice_ne_nil htext fun p hp => ?_
  obtain ⟨i, hi, rfl⟩ := List.getElem_of_mem hp
  rw [List.getElem_zipWith]
  exact replacements_ne_nil hall _ (List.getElem_mem _)

/-- What stands before, between and after the spans. -/
def gapsOf (text : Str) (es : List PIIEntity) : List Str := Splice.gaps text 0 (es.map fun e => patchOf e e.value)

theorem gaps_patches {es : List PIIEntity} {replacements : List Str} (hlen : replacements.length = es.length) (l : Str)
    (cursor : Nat) :
    Splice.gaps l cursor (List.zipWith patchOf es replacements) =
      Splice.gaps l cursor (es.map fun e => patchOf e e.value) := by
  induction es generalizing replacements cursor with
  | nil => rfl
  | cons e es ih =>
    rcases replacements with _ | ⟨r, replacements⟩
    · cases hlen
    · rw [List.zipWith_cons_cons, List.map_cons, Splice.gaps, Splice.gaps, ih (Nat.succ.inj hlen)]
      rfl

theorem mask_error {err : PIIProxyError} (h : mask tokenHex text strategyByType entities contextRules = .error err) :
    ∃ e ∈ maskedEntities text entities contextRules, ∃ token,
      (strategyFor strategyByType e.type).mask token e = .error err := by
  have hspec := mask_spec tokenHex text strategyByType entities contextRules
  cases hmasks : masksFrom tokenHex strategyByType 0 (maskedEntities text entities contextRules) with
  | error err' =>
    rw [hmasks, h] at hspec
    obtain rfl := Except.error.inj hspec
    exact masks_error hmasks
  | ok replacements =>
    rw [hmasks, h] at hspec
    obtain ⟨_, hresult, -⟩ := hspec
    cases hresult

/-- The spans that are replaced stand one after the other, whatever replaces them. -/
theorem fits_patches {replacements : List Str}
    (hlen : replacements.length = (maskedEntities text entities contextRules).length) :
    Splice.Fits text.length 0 (List.zipWith patchOf (maskedEntities text entities contextRules) replacements) := by
  have hspans : ∀ p ∈ List.zipWith patchOf (maskedEntities text entities contextRules) replacements,
      ∃ e ∈ maskedEntities text entities contextRules, p.start = e.start.toNat ∧ p.stop = e.stop.toNat := by
    intro p hp
    obtain ⟨i, hi, rfl⟩ := List.getElem_of_mem hp
    rw [List.getElem_zipWith]
    exact ⟨_, List.getElem_mem _, rfl, rfl⟩
  have hpair : (maskedEntities text entities contextRules).Pairwise fun a b => a.stop ≤ b.start :=
    (pairwise_selectSpans text entities).filter _
  refine Splice.fits_of_pairwise (Nat.zero_le _) (fun p _ => Nat.zero_le _) ?_ ?_
  · refine List.pairwise_iff_getElem.mpr fun i j hi hj hij => ?_
    rw [List.getElem_zipWith, List.getElem_zipWith]
    rw [List.length_zipWith, hlen, Nat.min_self] at hi hj
    have := List.pairwise_iff_getElem.mp hpair i j hi hj hij
    simp only [patchOf]
    omega
  · intro p hp
    obtain ⟨e, he, hstart, hstop⟩ := hspans p hp
    obtain ⟨-, hlt, hle, -⟩ := validSpan_of_masked he
    omega

/-- The segments that are replaced are the values of the spans. -/
theorem segments_patches {replacements : List Str}
    (hlen : replacements.length = (maskedEntities text entities contextRules).length) :
    (List.zipWith patchOf (maskedEntities text entities contextRules) replacements).map (Splice.Patch.segment text) =
      (maskedEntities text entities contextRules).map (·.value) := by
  rw [List.map_zipWith]
  refine List.ext_getElem (by simp [hlen]) fun i hi hi' => ?_
  rw [List.length_map] at hi'
  rw [List.getElem_zipWith, List.getElem_map]
  exact (validSpan_of_masked (List.getElem_mem hi')).2.2.2

theorem values_mappings {es : List PIIEntity} {replacements : List Str} (hlen : replacements.length = es.length) :
    (List.zipWith (fun e r => (r, e.value)) es replacements).map (·.2) = es.map (·.value) := by
  rw [List.map_zipWith]
  refine List.ext_getElem (by simp [hlen]) fun i hi hi' => ?_
  rw [List.getElem_zipWith, List.getElem_map]

/-- With the gaps between the spans, the text holds the values and the masked text the replacements. -/
theorem interleave_mappings {result : MaskingResult} {replacements : List Str}
    (hlen : replacements.length = (maskedEntities text entities contextRules).length)
    (hmap : result.mappings =
      List.zipWith (fun e r => (r, e.value)) (maskedEntities text entities contextRules) replacements)
    (htext : result.maskedText =
      Splice.splice text 0 (List.zipWith patchOf (maskedEntities text entities contextRules) replacements)) :
    text = Splice.interleave (gapsOf text (maskedEntities text entities contextRules)) (result.mappings.map (·.2)) ∧
      result.maskedText =
        Splice.interleave (gapsOf text (maskedEntities text entities contextRules)) (result.mappings.map (·.1)) := by
  have hgaps := gaps_patches hlen text 0
  have hmasks : result.mappings.map (·.1) =
      (List.zipWith patchOf (maskedEntities text entities contextRules) replacements).map (·.text) := by
    rw [hmap, List.map_zipWith, List.map_zipWith]
    rfl
  rw [hmasks, htext, Splice.splice_eq_interleave, gapsOf, ← hgaps]
  refine ⟨?_, rfl⟩
  rw [hmap, values_mappings hlen, ← segments_patches hlen, Splice.interleave_segments (fits_patches hlen), List.drop_zero]

/-! ### Full masks -/

/-- The position stands in a span that is replaced. -/
def Hidden (text : Str) (entities : List PIIEntity) (contextRules : List ContextRule) (i : Nat) : Prop :=
  ∃ e ∈ maskedEntities text entities contextRules, e.start ≤ i ∧ i < e.stop

instance (i : Nat) : Decidable (Hidden text entities contextRules i) :=
  inferInstanceAs (Decidable (∃ e ∈ maskedEntities text entities contextRules, e.start ≤ i ∧ i < e.stop))

section Full
variable (full : ∀ e ∈ maskedEntities text entities contextRules, strategyFor strategyByType e.type = .fullMask)

include full in
theorem replacements_of_full {replacements : List Str}
    (hall : List.Forall₂ (Replaces strategyByType) (maskedEntities text entities contextRules) replacements) :
    replacements = (maskedEntities text entities contextRules).map fun e => maskAllAlnum e.value := by
  generalize maskedEntities text entities contextRules = l at hall full
  induction hall with
  | nil => rfl
  | cons hr _ ih =>
    obtain ⟨token, hmask⟩ := hr
    rw [full _ List.mem_cons_self] at hmask
    rw [List.map_cons, ih fun e he => full e (List.mem_cons_of_mem _ he), ← Except.ok.inj hmask]
    rfl

include full in
theorem mappings_of_full {result : MaskingResult}
    (h : mask tokenHex text strategyByType entities contextRules = .ok result) :
    result.mappings = (maskedEntities text entities contextRules).map fun e => (maskAllAlnum e.value, e.value) := by
  obtain ⟨replacements, hall, hmap, -⟩ := mask_ok h
  rw [hmap, replacements_of_full full hall, List.zipWith_map_right, List.zipWith_self]

include full in
theorem mask_isOk (tokenHex : Nat → Str) :
    ∃ result, mask tokenHex text strategyByType entities contextRules = .ok result := by
  cases hmask : mask tokenHex text strategyByType entities contextRules with
  | ok result => exact ⟨result, rfl⟩
  | error err =>
    obtain ⟨e, he, token, hfails⟩ := mask_error hmask
    rw [full e he] at hfails
    cases hfails

include full in
/-- Under full masks each character keeps its place, and the letters and digits of the replaced spans become `*`. -/
theorem getElem?_maskedText {result : MaskingResult}
    (h : mask tokenHex text strategyByType entities contextRules = .ok result) (i : Nat) :
    result.maskedText[i]? = text[i]?.map fun c => if Hidden text entities contextRules i then hide c else c := by
  obtain ⟨replacements, hall, -, htext⟩ := mask_ok h
  have hpatches : List.zipWith patchOf (maskedEntities text entities contextRules) replacements =
      (maskedEntities text entities contextRules).map fun e => patchOf e (maskAllAlnum e.value) := by
    rw [replacements_of_full full hall, List.zipWith_map_right, List.zipWith_self]
  have hfits := fits_patches hall.length_eq.symm
  rw [hpatches] at hfits
  have hmaps : ∀ p ∈ (maskedEntities text entities contextRules).map fun e => patchOf e (maskAllAlnum e.value),
      p.Maps text hide := by
    intro p hp
    obtain ⟨e, he, rfl⟩ := List.mem_map.mp hp
    obtain ⟨-, -, -, hvalue⟩ := validSpan_of_masked he
    exact congrArg (List.map hide) hvalue.symm
  rw [htext, hpatches, Splice.getElem?_splice hfits hmaps i, Nat.zero_add]
  refine congrArg (text[i]?.map ·) (funext fun c => ?_)
  refine if_congr ?_ rfl rfl
  constructor
  · rintro ⟨p, hp, hhas⟩
    obtain ⟨e, he, rfl⟩ := List.mem_map.mp hp
    obtain ⟨hstart, hlt, -, -⟩ := validSpan_of_masked he
    obtain ⟨h1, h2⟩ := hhas
    simp only [patchOf] at h1 h2
    exact ⟨e, he, by omega, by omega⟩
  · rintro ⟨e, he, h1, h2⟩
    refine ⟨_, List.mem_map_of_mem he, ?_⟩
    exact ⟨by simp only [patchOf]; omega, by simp only [patchOf]; omega⟩

end Full

end Result

end MaskingEngine

end PiiProxy
