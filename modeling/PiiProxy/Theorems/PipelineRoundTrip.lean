import PiiProxy.Processing.ProcessService
import PiiProxy.Processing.SecureLLMPipeline

/-! # When the pipeline gives the prompt back

The mappings are applied one after the other, each to the whole text. With an LLM that returns its prompt, the text comes
back if every mask, when its turn comes, is found only in spans that show it for the same value. Two values with one mask
are enough to get another text. -/

namespace PiiProxy.SecureLLMPipeline
open MaskingEngine Splice Replace ProcessService

/-! ### The text while it is being restored -/

/-- What a span shows when the mappings in `done` have been applied. -/
def shown (done : List (Str × Str)) (pair : Str × Str) : Str := if pair ∈ done then pair.2 else pair.1

def halfway (gaps : List Str) (pairs done : List (Str × Str)) : Str := interleave gaps (pairs.map (shown done))

/-- Where the span `n` begins in it. -/
def beginning (gaps : List Str) (pairs done : List (Str × Str)) (n : Nat) : Nat :=
  (interleave (gaps.take (n + 1)) ((pairs.map (shown done)).take n)).length

/-- The mask is found only where a span begins that still shows it for the same value. -/
def OwnPlaces (gaps : List Str) (pairs done : List (Str × Str)) (pair : Str × Str) : Prop :=
  ∀ o ∈ places pair.1 0 0 (halfway gaps pairs done),
    pair ∉ done ∧ ∃ n < pairs.length, pairs[n]? = some pair ∧ o = beginning gaps pairs done n

instance (gaps : List Str) (pairs done : List (Str × Str)) (pair : Str × Str) :
    Decidable (OwnPlaces gaps pairs done pair) :=
  inferInstanceAs (Decidable (∀ o ∈ places pair.1 0 0 (halfway gaps pairs done),
    pair ∉ done ∧ ∃ n < pairs.length, pairs[n]? = some pair ∧ o = beginning gaps pairs done n))

/-- Each mask in its turn; one that is the value itself changes nothing. -/
def InTurn (gaps : List Str) (pairs : List (Str × Str)) : Prop :=
  ∀ k, ∀ h : k < pairs.length, pairs[k].1 ≠ pairs[k].2 → OwnPlaces gaps pairs (pairs.take k) pairs[k]

instance (gaps : List Str) (pairs : List (Str × Str)) : Decidable (InTurn gaps pairs) :=
  inferInstanceAs (Decidable (∀ k, ∀ h : k < pairs.length,
    pairs[k].1 ≠ pairs[k].2 → OwnPlaces gaps pairs (pairs.take k) pairs[k]))

section
variable {gaps : List Str} {pairs done rest : List (Str × Str)} {pair : Str × Str}

theorem halfway_nil : halfway gaps pairs [] = interleave gaps (pairs.map (·.1)) := by
  refine congrArg _ (List.map_congr_left fun q _ => ?_)
  rw [shown, if_neg List.not_mem_nil]

theorem halfway_self : halfway gaps pairs pairs = interleave gaps (pairs.map (·.2)) := by
  refine congrArg _ (List.map_congr_left fun q hq => ?_)
  rw [shown, if_pos hq]

theorem replace_halfway (hgaps : gaps.length = pairs.length + 1) (hne : pair.1 ≠ [])
    (hown : pair.1 ≠ pair.2 → OwnPlaces gaps pairs done pair) :
    replace (halfway gaps pairs done) pair.1 pair.2 = halfway gaps pairs (done ++ [pair]) := by
  rw [replace, if_neg (by simpa using hne)]
  by_cases hsame : pair.1 = pair.2
  · rw [← hsame, scan_self hne, halfway, halfway]
    refine congrArg _ (List.map_congr_left fun q _ => ?_)
    by_cases hq : q = pair
    · subst hq
      simp [shown, hsame]
    · simp [shown, hq]
  · have hsegments : pairs.map (shown done) =
        (pairs.map fun q => (shown done q, decide (q = pair ∧ pair ∉ done))).map (·.1) := by
      rw [List.map_map]
      rfl
    have hafter : halfway gaps pairs (done ++ [pair]) = interleave gaps
        ((pairs.map fun q => (shown done q, decide (q = pair ∧ pair ∉ done))).map fun s =>
          if s.2 then pair.2 else s.1) := by
      rw [List.map_map]
      refine congrArg _ (List.map_congr_left fun q _ => ?_)
      by_cases hq : q = pair
      · subst hq
        by_cases hdone : q ∈ done
        · simp [shown, hdone]
        · simp [shown, hdone]
      · simp [shown, hq]
    rw [hafter, halfway, hsegments]
    refine scan_interleave (i := 0) hne (by rw [hgaps, List.length_map]) ?_ fun o ho => ?_
    · intro s hs hmark
      obtain ⟨q, -, rfl⟩ := List.mem_map.mp hs
      obtain ⟨rfl, hdone⟩ := of_decide_eq_true hmark
      rw [shown, if_neg hdone]
    · rw [← hsegments] at ho
      obtain ⟨hdone, n, -, hn, ho⟩ := hown hsame o ho
      refine ⟨n, (shown done pair, true), ?_, rfl, ?_⟩
      · rw [List.getElem?_map, hn]
        simp [hdone]
      · rw [← hsegments, Nat.zero_add]
        exact ho

theorem restore_halfway (hgaps : gaps.length = pairs.length + 1) (hne : ∀ p ∈ pairs, p.1 ≠ [])
    (hown : InTurn gaps pairs) (hpairs : pairs = done ++ rest) :
    restore rest (halfway gaps pairs done) = interleave gaps (pairs.map (·.2)) := by
  induction rest generalizing done with
  | nil =>
    rw [List.append_nil] at hpairs
    subst hpairs
    exact halfway_self
  | cons p rest ih =>
    have hp : p ∈ pairs := by
      rw [hpairs]
      exact List.mem_append_right _ List.mem_cons_self
    have hlength : done.length < pairs.length := by
      rw [hpairs, List.length_append, List.length_cons]
      omega
    have hturn := hown done.length hlength
    have hget : pairs[done.length] = p := by simp [hpairs]
    have htake : pairs.take done.length = done := by rw [hpairs, List.take_left]
    rw [hget, htake] at hturn
    rw [restore, List.foldl_cons]
    dsimp only
    rw [replace_halfway hgaps (hne p hp) hturn]
    exact ih (by rw [hpairs, List.append_assoc]; rfl)

end

/-! ### The pipeline -/

/-- Every span gets a mask, and each mask in its turn is found only in its own spans. -/
def Restorable (tokenHex : Nat → Str) (text : Str) (policy : ConsumerPolicy) (candidates : List PIIEntity) : Prop :=
  ∃ masks, masksFrom tokenHex policy.masking 0
      (maskedEntities text (protectedEntities policy candidates) policy.contextRules) = .ok masks ∧
    InTurn (gapsOf text (maskedEntities text (protectedEntities policy candidates) policy.contextRules))
      (List.zipWith (fun e mask => (mask, e.value))
        (maskedEntities text (protectedEntities policy candidates) policy.contextRules) masks)

/-- The text comes back as it was, whatever the policy, the detectors and the tokens. -/
theorem run_restores (engine : DetectionEngine) (tokenHex : Nat → Str) (text : Str) (policy : ConsumerPolicy)
    (candidates : List PIIEntity) (found : engine.candidates text { consumerId := policy.consumerId } = .ok candidates)
    (restorable : Restorable tokenHex text policy candidates) :
    run engine tokenHex MockLLMAdapter text policy = .ok text := by
  have hdetect : engine.detect text { consumerId := policy.consumerId } = .ok (resolveSpans candidates) := by
    rw [DetectionEngine.detect_eq, found]
    rfl
  obtain ⟨masks, hmasks, hturn⟩ := restorable
  obtain ⟨result, hresult, hmappings, hmasked⟩ : ∃ result, MaskingEngine.mask tokenHex text policy.masking
      (protectedEntities policy candidates) policy.contextRules = .ok result ∧ _ := by
    have hspec := mask_spec tokenHex text policy.masking (protectedEntities policy candidates) policy.contextRules
    rw [hmasks] at hspec
    exact hspec
  have hrun : run engine tokenHex MockLLMAdapter text policy = .ok (restore result.mappings result.maskedText) := by
    rw [protectedEntities] at hresult
    simp only [run, hdetect, hresult, MockLLMAdapter, bind, Except.bind, pure, Except.pure]
  have hall := replaces_of_masks hmasks
  have hlen := hall.length_eq.symm
  obtain ⟨horiginal, htext⟩ := interleave_mappings hlen hmappings hmasked
  have hcount : (gapsOf text (maskedEntities text (protectedEntities policy candidates) policy.contextRules)).length =
      result.mappings.length + 1 := by
    rw [gapsOf, length_gaps, List.length_map, hmappings, List.length_zipWith, hlen, Nat.min_self]
  have hne : ∀ p ∈ result.mappings, p.1 ≠ [] := by
    intro p hp
    rw [hmappings] at hp
    obtain ⟨i, hi, rfl⟩ := List.getElem_of_mem hp
    rw [List.getElem_zipWith]
    exact replacements_ne_nil hall _ (List.getElem_mem _)
  rw [← hmappings] at hturn
  rw [hrun, htext, ← halfway_nil, restore_halfway hcount hne hturn (List.nil_append _).symm, ← horiginal]

/-! ### Two e-mail addresses -/

def twoEmails : Str := "a@b.ru c@d.ru".toList

def twoEmailsFound : List PIIEntity :=
  [⟨.email, "a@b.ru".toList, 0, 6, 1, []⟩, ⟨.email, "c@d.ru".toList, 7, 13, 1, []⟩]

/-- With tokens in their places. -/
def tokenized : ConsumerPolicy :=
  { ConsumerPolicy.default with masking := OrderedDict.empty.set .email .tokenize }

def freshTokens (n : Nat) : Str := if n = 0 then "0123456789abcdef".toList else "fedcba9876543210".toList

theorem run_restores_tokenized :
    run ⟨[fun _ _ => .ok twoEmailsFound]⟩ freshTokens MockLLMAdapter twoEmails tokenized = .ok twoEmails := by
  refine run_restores _ _ _ _ twoEmailsFound rfl ?_
  exact ⟨["<TOKEN:EMAIL:0123456789abcdef>".toList, "<TOKEN:EMAIL:fedcba9876543210>".toList], by decide +kernel,
    by decide +kernel⟩

/-- Masked in full, two addresses have one mask, and the first one comes back twice. -/
theorem two_emails_not_restored :
    run (DetectionEngine.regexOnly ⟨2026, 1, 1⟩) freshTokens MockLLMAdapter twoEmails ConsumerPolicy.default =
        .ok "a@b.ru a@b.ru".toList ∧
      run (DetectionEngine.regexOnly ⟨2026, 1, 1⟩) freshTokens MockLLMAdapter twoEmails ConsumerPolicy.default ≠
        .ok twoEmails := by
  have hrun : run (DetectionEngine.regexOnly ⟨2026, 1, 1⟩) freshTokens MockLLMAdapter twoEmails ConsumerPolicy.default =
      .ok "a@b.ru a@b.ru".toList := by decide +kernel
  rw [hrun]
  exact ⟨rfl, by decide⟩

end PiiProxy.SecureLLMPipeline
