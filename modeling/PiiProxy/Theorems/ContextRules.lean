import PiiProxy.Masking.Engine

/-! # What the context rules leave unmasked

The last well-formed rule for a type decides about it. Every other rule for the type might as well not be there, and
without a well-formed rule the type is masked. -/

namespace PiiProxy.MaskingEngine

/-! ### One rule -/

/-- The rule is about the type. -/
def RuleFor (type : PIIType) (rule : ContextRule) : Prop := rule.get? "type".toList = some (.str type.value)

/-- `enabled` is literally `False`. -/
def Disabled (rule : ContextRule) : Prop := rule.get? "enabled".toList = some (.bool false)

/-- `requires` is a list of known types, and not the empty one. -/
def Requires (required : List PIIType) (rule : ContextRule) : Prop :=
  required ≠ [] ∧ rule.get? "requires".toList = some (.list (required.map fun type => .str type.value))

def WellFormed (rule : ContextRule) : Prop :=
  ∃ type, RuleFor type rule ∧ (Disabled rule ∨ ∃ required, Requires required rule)

/-- What the loop takes from a rule: its type, and the types required. -/
def parseRule (rule : ContextRule) : Option (PIIType × Finset PIIType) :=
  match parseRuleType rule with
  | none => none
  | some type =>
    match rule.get? "enabled".toList with
    | some (.bool false) => some (type, ∅)
    | _ => (parseRequiredTypes (rule.get? "requires".toList)).map fun required => (type, required)

section
variable {rule : ContextRule} {rules : List ContextRule} {type : PIIType} {required : Finset PIIType}
  {parsed : ContextRules}

theorem addRule_eq (parsed : ContextRules) (rule : ContextRule) :
    addRule parsed rule = (parseRule rule).elim parsed fun r => parsed.set r.1 r.2 := by
  unfold addRule parseRule
  generalize rule.get? "enabled".toList = enabled
  cases parseRuleType rule with
  | none => rfl
  | some type =>
    cases parseRequiredTypes (rule.get? "requires".toList) with
    | none => rcases enabled with _ | (_ | _) | _ | _ | _ <;> rfl
    | some required => rcases enabled with _ | (_ | _) | _ | _ | _ <;> rfl

theorem parseRuleType_eq_some : parseRuleType rule = some type ↔ RuleFor type rule := by
  unfold parseRuleType RuleFor
  constructor
  · intro h
    split at h
    · rename_i raw hget
      rw [hget, PIIType.ofValue?_eq_some.mp h]
    · cases h
  · intro h
    rw [h]
    exact PIIType.ofValue?_eq_some.mpr rfl

theorem mapM_parseType {items : List Yaml} {types : List PIIType} :
    items.mapM parseType = some types ↔ items = types.map fun type => .str type.value := by
  induction items generalizing types with
  | nil => cases types <;> simp [pure]
  | cons item items ih =>
    have hitem : ∀ type, parseType item = some type ↔ item = .str type.value := by
      intro type
      cases item with
      | str raw => simp [parseType, PIIType.ofValue?_eq_some]
      | bool _ | list _ | other => simp [parseType]
    rw [List.mapM_cons]
    cases types with
    | nil => simp [bind, Option.bind_eq_some_iff, pure]
    | cons type types => simp [bind, Option.bind_eq_some_iff, pure, hitem, ih]

theorem parseRequiredTypes_eq_some :
    parseRequiredTypes (rule.get? "requires".toList) = some required ↔
      ∃ types, Requires types rule ∧ types.toFinset = required := by
  unfold parseRequiredTypes Requires
  constructor
  · intro h
    split at h
    · cases h
    · rename_i items hne hget
      obtain ⟨types, htypes, rfl⟩ := Option.map_eq_some_iff.mp h
      rw [mapM_parseType] at htypes
      subst htypes
      refine ⟨types, ⟨?_, hget⟩, rfl⟩
      rintro rfl
      exact hne rfl
    · cases h
  · rintro ⟨types, ⟨hne, hget⟩, rfl⟩
    rw [hget]
    cases types with
    | nil => exact absurd rfl hne
    | cons type types =>
      exact Option.map_eq_some_iff.mpr ⟨_, mapM_parseType.mpr rfl, rfl⟩

/-- The loop takes a rule of the type: one that is disabled, or one with the types that it requires. -/
theorem parseRule_eq_some :
    parseRule rule = some (type, required) ↔ RuleFor type rule ∧
      (Disabled rule ∧ required = ∅ ∨ ¬ Disabled rule ∧ ∃ types, Requires types rule ∧ types.toFinset = required) := by
  rw [← parseRuleType_eq_some, ← parseRequiredTypes_eq_some]
  unfold parseRule Disabled
  cases htype : parseRuleType rule with
  | none => simp
  | some type' =>
    dsimp only
    generalize rule.get? "enabled".toList = enabled
    generalize parseRequiredTypes (rule.get? "requires".toList) = parsed
    split
    · simp [eq_comm]
    · rename_i henabled
      have hnot : enabled ≠ some (.bool false) := henabled
      simp [hnot, and_comm]

theorem isSome_parseRule : (parseRule rule).isSome = true ↔ WellFormed rule := by
  rw [Option.isSome_iff_exists]
  constructor
  · rintro ⟨⟨type, required⟩, hparse⟩
    obtain ⟨htype, ⟨hdisabled, -⟩ | ⟨-, types, hrequires, -⟩⟩ := parseRule_eq_some.mp hparse
    · exact ⟨type, htype, Or.inl hdisabled⟩
    · exact ⟨type, htype, Or.inr ⟨types, hrequires⟩⟩
  · rintro ⟨type, htype, hrule⟩
    by_cases hdisabled : Disabled rule
    · exact ⟨(type, ∅), parseRule_eq_some.mpr ⟨htype, Or.inl ⟨hdisabled, rfl⟩⟩⟩
    · obtain ⟨types, hrequires⟩ := hrule.resolve_left hdisabled
      exact ⟨(type, types.toFinset), parseRule_eq_some.mpr ⟨htype, Or.inr ⟨hdisabled, types, hrequires, rfl⟩⟩⟩

instance : DecidablePred WellFormed := fun _ => decidable_of_iff _ isSome_parseRule

/-! ### The list of rules -/

/-- The rule is the last well-formed one for the type. -/
def LastFor (type : PIIType) (rules : List ContextRule) (rule : ContextRule) : Prop :=
  ∃ before after, rules = before ++ rule :: after ∧ RuleFor type rule ∧ WellFormed rule ∧
    ∀ later ∈ after, RuleFor type later → ¬ WellFormed later

/-- A malformed rule, or one for another type, changes nothing for the type. -/
theorem get?_addRule_other (h : RuleFor type rule → ¬ WellFormed rule) : (addRule parsed rule).get? type = parsed.get? type := by
  rw [addRule_eq]
  cases hparse : parseRule rule with
  | none => rfl
  | some r =>
    have hwell : WellFormed rule := isSome_parseRule.mp (by rw [hparse]; rfl)
    have hne : type ≠ r.1 := by
      rintro rfl
      exact h (parseRule_eq_some.mp hparse).1 hwell
    rw [Option.elim_some, OrderedDict.get?_set, if_neg hne]

theorem get?_addRule (hparse : parseRule rule = some (type, required)) :
    (addRule parsed rule).get? type = some required := by
  rw [addRule_eq, hparse, Option.elim_some, OrderedDict.get?_set, if_pos rfl]

theorem get?_foldl_addRule_other (h : ∀ rule ∈ rules, RuleFor type rule → ¬ WellFormed rule) :
    (rules.foldl addRule parsed).get? type = parsed.get? type := by
  induction rules generalizing parsed with
  | nil => rfl
  | cons rule rules ih =>
    rw [List.foldl_cons, ih fun later hlater => h later (List.mem_cons_of_mem _ hlater),
      get?_addRule_other (h rule List.mem_cons_self)]

/-- If the type is in the map of the rules, then with what the last well-formed rule for it says. -/
theorem get?_foldl_addRule :
    (rules.foldl addRule OrderedDict.empty).get? type = some required ↔
      ∃ rule, LastFor type rules rule ∧ parseRule rule = some (type, required) := by
  constructor
  · intro h
    induction rules using List.reverseRecOn with
    | nil => cases h
    | append_singleton rules rule ih =>
      rw [List.foldl_append, List.foldl_cons, List.foldl_nil] at h
      by_cases hrule : RuleFor type rule ∧ WellFormed rule
      · obtain ⟨⟨type', required'⟩, hparse⟩ := Option.isSome_iff_exists.mp (isSome_parseRule.mpr hrule.2)
        obtain rfl : type' = type := by
          have htype := parseRuleType_eq_some.mpr (parseRule_eq_some.mp hparse).1
          rw [parseRuleType_eq_some.mpr hrule.1] at htype
          exact (Option.some.inj htype).symm
        rw [get?_addRule hparse] at h
        obtain rfl := Option.some.inj h
        exact ⟨rule, ⟨rules, [], rfl, hrule.1, hrule.2, fun later hlater => by cases hlater⟩, hparse⟩
      · have hother : RuleFor type rule → ¬ WellFormed rule := fun htype hwell => hrule ⟨htype, hwell⟩
        rw [get?_addRule_other hother] at h
        obtain ⟨last, ⟨before, after, rfl, hlast⟩, hparse⟩ := ih h
        refine ⟨last, ⟨before, after ++ [rule], by simp, hlast.1, hlast.2.1, fun later hlater => ?_⟩, hparse⟩
        rcases List.mem_append.mp hlater with hlater | hlater
        · exact hlast.2.2 later hlater
        · obtain rfl := List.mem_singleton.mp hlater
          exact hother
  · rintro ⟨rule, ⟨before, after, rfl, -, -, hafter⟩, hparse⟩
    rw [List.foldl_append, List.foldl_cons, get?_foldl_addRule_other hafter, get?_addRule hparse]

/-- The map that is used has the same entries, also where the list is empty or all of it was skipped. -/
theorem get?_resolveContextRules (rules : List ContextRule) (type : PIIType) :
    (resolveContextRules rules).get? type = (rules.foldl addRule OrderedDict.empty).get? type := by
  unfold resolveContextRules
  split
  · rename_i hempty
    rw [List.isEmpty_iff.mp hempty]
    rfl
  · dsimp only
    split
    · rename_i hskipped
      have hentries : (rules.foldl addRule OrderedDict.empty).entries = [] := List.length_eq_zero_iff.mp hskipped
      rw [contextRequires, OrderedDict.get?_empty, eq_comm, OrderedDict.get?_eq_none]
      intro required hmem
      rw [hentries] at hmem
      cases hmem
    · rfl

theorem contextAllows_eq_false {present : Finset PIIType} :
    contextAllows type present parsed = false ↔
      ∃ required, parsed.get? type = some required ∧ required ≠ ∅ ∧ ∀ t ∈ required, t ∉ present := by
  unfold contextAllows
  cases parsed.get? type with
  | none => simp
  | some required =>
    have hnone : required ∩ present = ∅ ↔ ∀ t ∈ required, t ∉ present := by
      simp [Finset.eq_empty_iff_forall_notMem]
    simp only [decide_eq_false_iff_not, not_or, Finset.not_nonempty_iff_eq_empty, Option.some.injEq, exists_eq_left',
      hnone, ne_eq]

theorem foldl_addRule_filter (rules : List ContextRule) (parsed : ContextRules) :
    (rules.filter fun rule => WellFormed rule).foldl addRule parsed = rules.foldl addRule parsed := by
  induction rules generalizing parsed with
  | nil => rfl
  | cons rule rules ih =>
    by_cases hwell : WellFormed rule
    · rw [List.filter_cons_of_pos (by simpa using hwell), List.foldl_cons, List.foldl_cons, ih]
    · have hskip : addRule parsed rule = parsed := by
        rw [addRule_eq, Option.not_isSome_iff_eq_none.mp (mt isSome_parseRule.mp hwell)]
        rfl
      rw [List.filter_cons_of_neg (by simpa using hwell), List.foldl_cons, hskip, ih]

theorem resolveContextRules_filter (rules : List ContextRule) :
    resolveContextRules (rules.filter fun rule => WellFormed rule) = resolveContextRules rules := by
  have hsame := foldl_addRule_filter rules OrderedDict.empty
  unfold resolveContextRules
  rw [hsame]
  by_cases hempty : rules.isEmpty
  · rw [List.isEmpty_iff.mp hempty]
    rfl
  · rw [if_neg hempty]
    by_cases hskipped : (rules.filter fun rule => WellFormed rule).isEmpty
    · rw [List.isEmpty_iff.mp hskipped] at hsame
      rw [if_pos hskipped, ← hsame]
      rfl
    · rw [if_neg hskipped]

/-! ### Which entities are left unmasked -/

variable {text : Str} {entities : List PIIEntity}

theorem unmasked_of_selected {e : PIIEntity} (he : e ∈ selectSpans text entities) :
    e ∉ maskedEntities text entities rules ↔ ∃ rule, LastFor e.type rules rule ∧ ¬ Disabled rule ∧
      ∃ required, Requires required rule ∧ ∀ f ∈ selectSpans text entities, f.type ∉ required := by
  rw [maskedEntities, List.mem_filter, not_and, Bool.not_eq_true, contextAllows_eq_false]
  constructor
  · intro h
    obtain ⟨required, hget, hne, hnone⟩ := h he
    rw [get?_resolveContextRules, get?_foldl_addRule] at hget
    obtain ⟨rule, hlast, hparse⟩ := hget
    obtain ⟨-, ⟨-, rfl⟩ | ⟨henabled, types, hrequires, rfl⟩⟩ := parseRule_eq_some.mp hparse
    · exact absurd rfl hne
    · refine ⟨rule, hlast, henabled, types, hrequires, fun f hf hmem => ?_⟩
      exact hnone f.type (List.mem_toFinset.mpr hmem) (List.mem_toFinset.mpr (List.mem_map_of_mem hf))
  · rintro ⟨rule, hlast, henabled, types, hrequires, hnone⟩ -
    have htype : RuleFor e.type rule := by
      obtain ⟨-, -, -, htype, -⟩ := hlast
      exact htype
    refine ⟨types.toFinset, ?_, ?_, fun t ht hpresent => ?_⟩
    · rw [get?_resolveContextRules, get?_foldl_addRule]
      exact ⟨rule, hlast, parseRule_eq_some.mpr ⟨htype, Or.inr ⟨henabled, types, hrequires, rfl⟩⟩⟩
    · rw [ne_eq, List.toFinset_eq_empty_iff]
      exact hrequires.1
    · obtain ⟨f, hf, rfl⟩ := List.mem_map.mp (List.mem_toFinset.mp hpresent)
      exact hnone f hf (List.mem_toFinset.mp ht)

/-- The masked text is the text with the masked entities replaced. A selected entity is not among them exactly if the last
    well-formed rule for its type is not disabled and requires only types that none of the selected entities has.
    Malformed rules change nothing, and a list of nothing else masks all. -/
theorem unmasked_iff (text : Str) (entities : List PIIEntity) (rules : List ContextRule) :
    (∀ tokenHex strategyByType result, mask tokenHex text strategyByType entities rules = .ok result →
      ∃ replacements, List.Forall₂ (Replaces strategyByType) (maskedEntities text entities rules) replacements ∧
        result.maskedText = Splice.splice text 0 (List.zipWith patchOf (maskedEntities text entities rules) replacements)) ∧
      (∀ e ∈ selectSpans text entities, e ∉ maskedEntities text entities rules ↔
        ∃ rule, LastFor e.type rules rule ∧ ¬ Disabled rule ∧
          ∃ required, Requires required rule ∧ ∀ f ∈ selectSpans text entities, f.type ∉ required) ∧
      (∀ tokenHex strategyByType, mask tokenHex text strategyByType entities (rules.filter fun rule => WellFormed rule) =
        mask tokenHex text strategyByType entities rules) ∧
      ((∀ rule ∈ rules, ¬ WellFormed rule) → maskedEntities text entities rules = selectSpans text entities) := by
  refine ⟨?_, fun e he => unmasked_of_selected he, ?_, ?_⟩
  · intro tokenHex strategyByType result hmask
    obtain ⟨replacements, hall, -, htext⟩ := mask_ok hmask
    exact ⟨replacements, hall, htext⟩
  · intro tokenHex strategyByType
    rw [mask, resolveContextRules_filter, ← mask]
  · intro hmalformed
    refine List.filter_eq_self.mpr fun e he => ?_
    by_contra hunmasked
    have hout : e ∉ maskedEntities text entities rules := fun hmem => hunmasked (List.mem_filter.mp hmem).2
    obtain ⟨rule, ⟨before, after, rfl, -, hwell, -⟩, -⟩ := (unmasked_of_selected he).mp hout
    exact hmalformed rule (List.mem_append_right _ List.mem_cons_self) hwell

end

/-- In the text `1234`, a PIN. -/
def pin : PIIEntity := ⟨.pin, "1234".toList, 0, 4, 1, []⟩

/-- The rule of the demo policy leaves a PIN alone where there is no card. -/
theorem unmasked_iff_pin : pin ∈ selectSpans "1234".toList [pin] ∧
    pin ∉ maskedEntities "1234".toList [pin] ConsumerPolicy.demo.contextRules := by
  have hselected : selectSpans "1234".toList [pin] = [pin] := by decide +kernel
  have hmem : pin ∈ selectSpans "1234".toList [pin] := by
    rw [hselected]
    exact List.mem_singleton_self pin
  refine ⟨hmem, ((unmasked_iff _ _ _).2.1 pin hmem).mpr ⟨_, ⟨[], [], rfl, rfl, ?_, fun _ h => by cases h⟩, ?_, [.bankCard],
    ⟨by decide, rfl⟩, ?_⟩⟩
  · exact ⟨.pin, rfl, Or.inr ⟨[.bankCard], by decide, rfl⟩⟩
  · intro hdisabled
    cases hdisabled
  · rw [hselected]
    decide

end PiiProxy.MaskingEngine
