import PiiProxy.Detection.Resolution
import PiiProxy.Lib.Greedy
import PiiProxy.Masking.Engine

/-! # When the longest of overlapping spans is kept

`_select_spans` prefers the longest span only among those with one start: a span is left out for any that it starts
inside, however short. -/

namespace PiiProxy.MaskingEngine
open Resolution (overlaps)

section
variable {text : Str} {entities : List PIIEntity}

/-- The entities that pass the checks. -/
def Valid (text : Str) (entities : List PIIEntity) : Set PIIEntity := {e | e ∈ entities ∧ validSpan text e = true}

def length (e : PIIEntity) : Int := e.stop - e.start

/-- Reading the text from left to right: of the entities that start when the last one taken is over, the one that starts
    first, the longest of these. -/
def Taken (text : Str) (entities : List PIIEntity) : PIIEntity → Prop :=
  Sweep.Taken PIIEntity.start PIIEntity.stop longestFirst (Valid text entities)

/-- The valid entities in the order of the loop. -/
def sorted (text : Str) (entities : List PIIEntity) : List PIIEntity :=
  (entities.filter (validSpan text)).insertionSort longestFirst

theorem mem_sorted {e : PIIEntity} : e ∈ sorted text entities ↔ e ∈ Valid text entities := by
  rw [sorted, List.mem_insertionSort, List.mem_filter]
  rfl

theorem selectSpans_eq_firstFit (text : Str) (entities : List PIIEntity) :
    selectSpans text entities = Sweep.firstFit PIIEntity.start PIIEntity.stop (sorted text entities) :=
  selectSpans_eq text entities

theorem pairwise_sorted (text : Str) (entities : List PIIEntity) : (sorted text entities).Pairwise longestFirst :=
  List.pairwise_insertionSort _ _

theorem proper_sorted : ∀ e ∈ sorted text entities, e.start < e.stop := fun _ he =>
  (validSpan_iff.mp (mem_sorted.mp he).2).2.1

theorem start_le_of_longestFirst (a b : PIIEntity) (h : longestFirst a b) : a.start ≤ b.start := by
  rcases h with h | ⟨h, -⟩
  · exact Int.le_of_lt h
  · exact Int.le_of_eq h

theorem stop_eq_of_longestFirst (a b : PIIEntity) (hab : longestFirst a b) (hba : longestFirst b a) :
    a.stop = b.stop := by
  simp only [longestFirst] at hab hba
  omega

theorem taken_of_mem_selectSpans {e : PIIEntity} (h : e ∈ selectSpans text entities) : Taken text entities e := by
  have htaken := Sweep.taken_of_mem_firstFit (pairwise_sorted text entities) proper_sorted
    (selectSpans_eq_firstFit text entities ▸ h)
  have hset : {x | x ∈ sorted text entities} = Valid text entities := Set.ext fun _ => mem_sorted
  rw [hset] at htaken
  exact htaken

theorem exists_selected_of_taken {e : PIIEntity} (h : Taken text entities e) :
    ∃ k ∈ selectSpans text entities, k.start = e.start ∧ k.stop = e.stop := by
  have hset : {x | x ∈ sorted text entities} = Valid text entities := Set.ext fun _ => mem_sorted
  rw [selectSpans_eq_firstFit]
  refine Sweep.exists_mem_of_taken start_le_of_longestFirst (pairwise_sorted text entities) proper_sorted
    stop_eq_of_longestFirst ?_
  rw [hset]
  exact h

/-- The entity that is selected where an entity starts. -/
theorem exists_selected_at_start {e : PIIEntity} (he : e ∈ Valid text entities) :
    ∃ k ∈ selectSpans text entities, k.start ≤ e.start ∧ e.start < k.stop := by
  obtain ⟨k, hk, hbefore, hinside⟩ := Sweep.exists_kept (pairwise_sorted text entities) proper_sorted (mem_sorted.mpr he)
  exact ⟨k, selectSpans_eq_firstFit text entities ▸ hk, start_le_of_longestFirst k e hbefore, hinside⟩

theorem apart_selectSpans {a b : PIIEntity} (ha : a ∈ selectSpans text entities) (hb : b ∈ selectSpans text entities) :
    a = b ∨ a.stop ≤ b.start ∨ b.stop ≤ a.start := by
  rw [selectSpans_eq_firstFit] at ha hb
  exact Sweep.apart_of_mem_firstFit start_le_of_longestFirst (pairwise_sorted text entities) ha hb

/-- Each valid entity that is dropped overlaps a selected one that is at least as long, exactly if each one that starts
    inside a shorter one taken ends inside one taken that is at least as long. -/
theorem dropped_overlap_longer_iff (text : Str) (entities : List PIIEntity) :
    (∀ e ∈ entities, validSpan text e = true → e ∉ selectSpans text entities →
        ∃ k ∈ selectSpans text entities, overlaps e k = true ∧ length e ≤ length k) ↔
      ∀ e ∈ entities, validSpan text e = true →
        ∀ a, Taken text entities a → a.start ≤ e.start → e.start < a.stop → length a < length e →
          ∃ b, Taken text entities b ∧ b.start < e.stop ∧ e.stop ≤ b.stop ∧ length e ≤ length b := by
  have hproper : ∀ e, validSpan text e = true → e.start < e.stop := fun e he => (validSpan_iff.mp he).2.1
  simp only [length, overlaps, decide_eq_true_eq]
  constructor
  · intro hlaw e he hvalid a ha hstart hinside hshorter
    obtain ⟨a', ha', hstart', hstop'⟩ := exists_selected_of_taken ha
    have hpos := hproper e hvalid
    have hdropped : e ∉ selectSpans text entities := by
      intro hselected
      rcases apart_selectSpans ha' hselected with rfl | h | h <;> omega
    obtain ⟨k, hk, ⟨hmeet, hmeet'⟩, hlong⟩ := hlaw e he hvalid hdropped
    -- The longer one cannot be before the shorter one in which the entity starts, so it reaches beyond the entity.
    have hafter : a'.stop ≤ k.start := by
      rcases apart_selectSpans ha' hk with rfl | h | h <;> omega
    exact ⟨k, taken_of_mem_selectSpans hk, by omega, by omega, hlong⟩
  · intro hends e he hvalid hdropped
    obtain ⟨a, ha, hstart, hinside⟩ := exists_selected_at_start ⟨he, hvalid⟩
    have hpos := hproper e hvalid
    by_cases hshorter : a.stop - a.start < e.stop - e.start
    · obtain ⟨b, hb, hmeet, hcovers, hlong⟩ := hends e he hvalid a (taken_of_mem_selectSpans ha) hstart hinside hshorter
      obtain ⟨k, hk, hstart', hstop'⟩ := exists_selected_of_taken hb
      exact ⟨k, hk, by omega, by omega⟩
    · exact ⟨a, ha, by omega, by omega⟩

end

/-- An INN and the phone number that begins inside it. -/
def nested : List PIIEntity :=
  [⟨.inn, "123".toList, 0, 3, 1, []⟩, ⟨.phone, "34567890".toList, 2, 10, 1, []⟩]

/-- The phone number is dropped for the INN. -/
theorem longer_dropped : selectSpans "1234567890".toList nested = [⟨.inn, "123".toList, 0, 3, 1, []⟩] ∧
    ¬ ∀ e ∈ nested, validSpan "1234567890".toList e = true → e ∉ selectSpans "1234567890".toList nested →
      ∃ k ∈ selectSpans "1234567890".toList nested, overlaps e k = true ∧ length e ≤ length k := by
  have hselected : selectSpans "1234567890".toList nested = [⟨.inn, "123".toList, 0, 3, 1, []⟩] := by decide +kernel
  refine ⟨hselected, fun h => ?_⟩
  rw [hselected] at h
  obtain ⟨k, hk, -, hlong⟩ := h ⟨.phone, "34567890".toList, 2, 10, 1, []⟩ (by simp [nested]) (by decide) (by decide)
  obtain rfl := List.mem_singleton.mp hk
  exact absurd hlong (by decide)

end PiiProxy.MaskingEngine
