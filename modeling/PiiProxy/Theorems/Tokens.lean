import PiiProxy.Lib.Markers
import PiiProxy.Theorems.PipelineRoundTrip

/-! # What comes back from an LLM that uses the tokens

With tokens for masks the restored response is the response with each token replaced by its value, in whatever order the
LLM uses them and however often: the replacements that follow one another do not meet. -/

namespace PiiProxy.SecureLLMPipeline
open MaskingEngine Markers ProcessService

/-! ### The tokens -/

/-- What either of the two strategies makes of the text that it draws. -/
def TokenOf (hex mask : Str) : Prop :=
  ∃ kind ∈ ["TOKEN".toList, "SYNTHETIC".toList], ∃ type : PIIType,
    mask = '<' :: ((kind ++ ':' :: (type.value ++ ':' :: hex)) ++ ['>'])

theorem toList_delimiters : ":".toList = [':'] ∧ ">".toList = ['>'] := by decide

theorem tokenize_shape (hex : Str) (e : PIIEntity) :
    TokenizeStrategy.mask hex e = '<' :: (("TOKEN".toList ++ ':' :: (e.type.value ++ ':' :: hex)) ++ ['>']) := by
  have hopen : "<TOKEN:".toList = '<' :: ("TOKEN".toList ++ [':']) := by decide
  unfold TokenizeStrategy.mask
  simp only [hopen, toList_delimiters, List.append_assoc, List.cons_append, List.nil_append]

theorem synthetic_shape (hex : Str) (e : PIIEntity) :
    SyntheticStrategy.mask hex e = '<' :: (("SYNTHETIC".toList ++ ':' :: (e.type.value ++ ':' :: hex)) ++ ['>']) := by
  have hopen : "<SYNTHETIC:".toList = '<' :: ("SYNTHETIC".toList ++ [':']) := by decide
  unfold SyntheticStrategy.mask
  simp only [hopen, toList_delimiters, List.append_assoc, List.cons_append, List.nil_append]

theorem tokenOf_tokenize (hex : Str) (e : PIIEntity) : TokenOf hex (TokenizeStrategy.mask hex e) := by
  unfold TokenOf
  exact ⟨"TOKEN".toList, List.mem_cons_self, e.type, tokenize_shape hex e⟩

theorem tokenOf_synthetic (hex : Str) (e : PIIEntity) : TokenOf hex (SyntheticStrategy.mask hex e) := by
  unfold TokenOf
  exact ⟨"SYNTHETIC".toList, List.mem_cons_of_mem _ List.mem_cons_self, e.type, synthetic_shape hex e⟩

theorem value_symbols (type : PIIType) : '<' ∉ type.value ∧ '>' ∉ type.value ∧ ':' ∉ type.value := by
  cases type <;> decide

theorem kind_symbols : ∀ kind ∈ ["TOKEN".toList, "SYNTHETIC".toList], '<' ∉ kind ∧ '>' ∉ kind ∧ ':' ∉ kind := by decide

section
variable {tokenHex : Nat → Str} {hex hex' mask : Str}

theorem TokenOf.marker (h : TokenOf hex mask) (hhex : '<' ∉ hex ∧ '>' ∉ hex) : Marker '<' '>' mask := by
  obtain ⟨kind, hkind, type, rfl⟩ := h
  have hkinds := kind_symbols kind hkind
  have hvalue := value_symbols type
  refine ⟨_, rfl, ?_, ?_⟩
  · simp [hkinds.1, hvalue.1, hhex.1]
  · simp [hkinds.2.1, hvalue.2.1, hhex.2]

/-- The drawn text can be read off the token. -/
theorem TokenOf.inj (h : TokenOf hex mask) (h' : TokenOf hex' mask) : hex = hex' := by
  obtain ⟨kind, hkind, type, rfl⟩ := h
  obtain ⟨kind', hkind', type', hmask⟩ := h'
  have hbody := List.append_cancel_right (List.cons.inj hmask).2
  obtain ⟨-, hrest⟩ := before_eq (kind_symbols kind hkind).2.2 (kind_symbols kind' hkind').2.2 hbody
  exact (before_eq (value_symbols type).2.2 (value_symbols type').2.2 hrest).2

/-- The masks of spans of which all become tokens. -/
theorem masksFrom_tokens {masking : OrderedDict PIIType MaskingStrategy} {es : List PIIEntity}
    (tokens : ∀ e ∈ es, strategyFor masking e.type = .tokenize ∨ strategyFor masking e.type = .synthetic) (n : Nat) :
    ∃ masks, masksFrom tokenHex masking n es = .ok masks ∧ masks.length = es.length ∧
      ∀ k mask, masks[k]? = some mask → TokenOf (tokenHex (n + k)) mask := by
  induction es generalizing n with
  | nil => exact ⟨[], rfl, rfl, fun k mask hmask => by cases hmask⟩
  | cons e es ih =>
    obtain ⟨masks, hmasks, hlength, hrest⟩ := ih (fun x hx => tokens x (List.mem_cons_of_mem _ hx)) (n + 1)
    obtain ⟨first, hfirst, htoken⟩ : ∃ first, (strategyFor masking e.type).mask (tokenHex n) e = .ok first ∧
        TokenOf (tokenHex n) first := by
      rcases tokens e List.mem_cons_self with hstrategy | hstrategy
      · rw [hstrategy]
        exact ⟨_, rfl, tokenOf_tokenize (tokenHex n) e⟩
      · rw [hstrategy]
        exact ⟨_, rfl, tokenOf_synthetic (tokenHex n) e⟩
    refine ⟨first :: masks, ?_, congrArg (· + 1) hlength, fun k mask hmask => ?_⟩
    · simp only [masksFrom, hfirst, hmasks, bind, Except.bind, pure, Except.pure]
    · cases k with
      | zero =>
        obtain rfl := Option.some.inj hmask
        exact htoken
      | succ k =>
        have hk : n + (k + 1) = n + 1 + k := by omega
        rw [hk]
        exact hrest k mask hmask

/-- Tokens of different texts are different. -/
theorem nodup_tokens {masks : List Str} (htokens : ∀ k mask, masks[k]? = some mask → TokenOf (tokenHex k) mask)
    (fresh : Set.InjOn tokenHex {n | n < masks.length}) : masks.Nodup := by
  rw [List.Nodup, List.pairwise_iff_getElem]
  intro i j hi hj hij hsame
  have hfirst := htokens i _ (List.getElem?_eq_getElem hi)
  have hsecond := htokens j _ (List.getElem?_eq_getElem hj)
  rw [← hsame] at hsecond
  exact absurd (fresh hi hj (hfirst.inj hsecond)) (Nat.ne_of_lt hij)

end

/-! ### The response -/

/-- What an LLM can say: words of its own, or the mask of a value. -/
inductive Said where
  | words (text : Str)
  | mask (pair : Str × Str)

namespace Said

def shown : Said → Str
  | words text => text
  | mask pair => pair.1

/-- With the value in the place of its mask. -/
def meant : Said → Str
  | words text => text
  | mask pair => pair.2

/-- The words have no `<`, and the mask is one of the prompt's. -/
def Fits (mappings : List (Str × Str)) : Said → Prop
  | words text => '<' ∉ text
  | mask pair => pair ∈ mappings

end Said

section
variable {mappings : List (Str × Str)} {said : List Said}

/-- Restoring the response is to say what was meant. -/
theorem restore_said (hmappings : ∀ pair ∈ mappings, Marker '<' '>' pair.1 ∧ Plain '<' pair.2)
    (hnodup : (mappings.map Prod.fst).Nodup) (hsaid : ∀ x ∈ said, x.Fits mappings) :
    restore mappings (said.flatMap Said.shown) = said.flatMap Said.meant := by
  have hscan : restore mappings (said.flatMap Said.shown) =
      mappings.foldl (fun text pair => Replace.scan pair.1 pair.2 0 text) (said.flatMap Said.shown) := by
    refine List.foldl_ext _ _ _ fun text pair hpair => ?_
    have hne : pair.1.isEmpty = false := List.isEmpty_eq_false_iff.mpr (hmappings pair hpair).1.ne_nil
    simp [replace, hne]
  have hcomposed : Composed '<' '>' (said.map Said.shown) := by
    intro piece hpiece
    obtain ⟨x, hx, rfl⟩ := List.mem_map.mp hpiece
    cases x with
    | words text => exact Or.inl (hsaid _ hx)
    | mask pair => exact Or.inr (hmappings pair (hsaid _ hx)).1
  rw [hscan, List.flatMap_def, foldl_scan (by decide) hmappings hcomposed, List.map_map, List.flatMap_def]
  refine congrArg List.flatten (List.map_congr_left fun x hx => ?_)
  cases x with
  | words text => exact translate_plain (fun pair hpair => (hmappings pair hpair).1) (hsaid _ hx)
  | mask pair => exact translate_of_mem hnodup (hsaid _ hx)

end

/-- Whatever the LLM makes of its prompt, if it consists of words without `<` and of masks of the prompt: the response
    comes back with the values in the places of the masks. -/
theorem run_translates (engine : DetectionEngine) (tokenHex : Nat → Str) (text : Str) (policy : ConsumerPolicy)
    (candidates : List PIIEntity) (found : engine.candidates text { consumerId := policy.consumerId } = .ok candidates)
    (plain : '<' ∉ text) (hex : ∀ n, '<' ∉ tokenHex n ∧ '>' ∉ tokenHex n)
    (tokens : ∀ e ∈ maskedEntities text (protectedEntities policy candidates) policy.contextRules,
      strategyFor policy.masking e.type = .tokenize ∨ strategyFor policy.masking e.type = .synthetic)
    (fresh : Set.InjOn tokenHex
      {n | n < (maskedEntities text (protectedEntities policy candidates) policy.contextRules).length}) :
    ∃ result, MaskingEngine.mask tokenHex text policy.masking (protectedEntities policy candidates) policy.contextRules =
        .ok result ∧
      ∀ (llm : LLMAdapter) (said : List Said), (∀ x ∈ said, x.Fits result.mappings) →
        llm result.maskedText = .ok (said.flatMap Said.shown) →
        run engine tokenHex llm text policy = .ok (said.flatMap Said.meant) := by
  have hdetect : engine.detect text { consumerId := policy.consumerId } = .ok (resolveSpans candidates) := by
    rw [DetectionEngine.detect_eq, found]
    rfl
  obtain ⟨masks, hmasks, hlength, htokens⟩ : ∃ masks, masksFrom tokenHex policy.masking 0 _ = .ok masks ∧ _ :=
    masksFrom_tokens tokens 0
  obtain ⟨result, hresult, hmappings, hmasked⟩ : ∃ result, MaskingEngine.mask tokenHex text policy.masking
      (protectedEntities policy candidates) policy.contextRules = .ok result ∧ _ := by
    have hspec := mask_spec tokenHex text policy.masking (protectedEntities policy candidates) policy.contextRules
    rw [hmasks] at hspec
    exact hspec
  have hfirst : result.mappings.map Prod.fst = masks := by
    rw [hmappings, List.map_zipWith]
    exact List.ext_getElem (by simp [hlength]) fun k hk hk' => by simp
  have hnodup : (result.mappings.map Prod.fst).Nodup := by
    rw [hfirst]
    refine nodup_tokens (fun k mask hmask => ?_) (hlength ▸ fresh)
    rw [← Nat.zero_add k]
    exact htokens k mask hmask
  have hpairs : ∀ pair ∈ result.mappings, Marker '<' '>' pair.1 ∧ Plain '<' pair.2 := by
    intro pair hpair
    rw [hmappings] at hpair
    obtain ⟨k, hk, rfl⟩ := List.getElem_of_mem hpair
    rw [List.length_zipWith] at hk
    obtain ⟨hentity, hmask⟩ := Nat.lt_min.mp hk
    rw [List.getElem_zipWith]
    refine ⟨(htokens k _ (List.getElem?_eq_getElem hmask)).marker (hex _), fun hmem => plain ?_⟩
    have hvalue := (validSpan_of_masked (List.getElem_mem hentity)).2.2.2
    rw [← hvalue] at hmem
    exact List.mem_of_mem_drop (List.mem_of_mem_take hmem)
  refine ⟨result, hresult, fun llm said hsaid hllm => ?_⟩
  rw [← restore_said hpairs hnodup hsaid]
  rw [protectedEntities] at hresult
  simp only [run, hdetect, hresult, hllm, bind, Except.bind, pure, Except.pure]

/-- What an LLM says that turns the two addresses round, and names one of them again. -/
def turnedRound : List Said :=
  [.words "cc ".toList, .mask ("<TOKEN:EMAIL:fedcba9876543210>".toList, "c@d.ru".toList), .words ", ".toList,
    .mask ("<TOKEN:EMAIL:0123456789abcdef>".toList, "a@b.ru".toList), .words " and ".toList,
    .mask ("<TOKEN:EMAIL:fedcba9876543210>".toList, "c@d.ru".toList)]

theorem run_translates_turned : run ⟨[fun _ _ => .ok twoEmailsFound]⟩ freshTokens
    (fun _ => .ok (turnedRound.flatMap Said.shown)) twoEmails tokenized = .ok "cc c@d.ru, a@b.ru and c@d.ru".toList := by
  have hhex : ∀ n, '<' ∉ freshTokens n ∧ '>' ∉ freshTokens n := by
    intro n
    unfold freshTokens
    split <;> decide
  have hfresh : Set.InjOn freshTokens {n | n < (maskedEntities twoEmails (protectedEntities tokenized twoEmailsFound)
      tokenized.contextRules).length} := by
    have hlength : (maskedEntities twoEmails (protectedEntities tokenized twoEmailsFound)
        tokenized.contextRules).length = 2 := by decide +kernel
    rw [hlength]
    have hdistinct : ∀ i < 2, ∀ j < 2, freshTokens i = freshTokens j → i = j := by decide
    exact fun i hi j hj => hdistinct i hi j hj
  obtain ⟨result, hresult, hrun⟩ := run_translates ⟨[fun _ _ => .ok twoEmailsFound]⟩ freshTokens twoEmails tokenized
    twoEmailsFound rfl (by decide) hhex (by decide +kernel) hfresh
  have hmappings : result.mappings = [("<TOKEN:EMAIL:0123456789abcdef>".toList, "a@b.ru".toList),
      ("<TOKEN:EMAIL:fedcba9876543210>".toList, "c@d.ru".toList)] := by
    have hmask : (MaskingEngine.mask freshTokens twoEmails tokenized.masking (protectedEntities tokenized twoEmailsFound)
        tokenized.contextRules).toOption.map (·.mappings) = some [("<TOKEN:EMAIL:0123456789abcdef>".toList, "a@b.ru".toList),
          ("<TOKEN:EMAIL:fedcba9876543210>".toList, "c@d.ru".toList)] := by decide +kernel
    rw [hresult] at hmask
    exact Option.some.inj hmask
  rw [hrun (fun _ => .ok (turnedRound.flatMap Said.shown)) turnedRound ?_ rfl]
  · decide +kernel
  · intro x hx
    rw [hmappings]
    simp only [turnedRound, List.mem_cons, List.not_mem_nil, or_false] at hx
    rcases hx with rfl | rfl | rfl | rfl | rfl | rfl <;> simp [Said.Fits]

end PiiProxy.SecureLLMPipeline
