import Mathlib.Algebra.Order.Field.Rat
import Mathlib.Data.Prod.Lex
import PiiProxy.Detection.Resolution
import PiiProxy.Lib.Clusters

/-! # What the overlap resolution keeps

`resolve_spans` keeps spans that stand apart, and which ones does not depend on the order of the detectors. It can
drop a candidate for the sake of one that it does not keep either. -/

namespace PiiProxy.Resolution

/-- By type priority, then by confidence, then by length. -/
def rank (e : PIIEntity) : Nat ×ₗ Rat ×ₗ Int := toLex (priority e.type, toLex (e.confidence, e.stop - e.start))

theorem rank_lt_iff {a b : PIIEntity} :
    rank a < rank b ↔ priority a.type < priority b.type ∨ priority a.type = priority b.type ∧
      (a.confidence < b.confidence ∨ a.confidence = b.confidence ∧ a.stop - a.start < b.stop - b.start) := by
  rw [rank, rank, Prod.Lex.toLex_lt_toLex, Prod.Lex.toLex_lt_toLex]

theorem better_eq : better = Sweep.higher rank := by
  funext a b
  have hiff := rank_lt_iff (a := a) (b := b)
  unfold better Sweep.higher
  dsimp only
  rcases lt_trichotomy (priority a.type) (priority b.type) with h | h | h
  · rw [if_pos (ne_of_lt h), if_neg (not_lt.mpr (le_of_lt h)), if_pos (hiff.mpr (Or.inl h))]
  · rw [if_neg (not_not.mpr h)]
    rcases lt_trichotomy a.confidence b.confidence with hc | hc | hc
    · rw [if_pos (ne_of_lt hc), if_neg (not_lt.mpr (le_of_lt hc)), if_pos (hiff.mpr (Or.inr ⟨h, Or.inl hc⟩))]
    · rw [if_neg (not_not.mpr hc)]
      by_cases hl : a.stop - a.start ≥ b.stop - b.start
      · rw [if_pos hl, if_neg fun hlt => ?_]
        rcases hiff.mp hlt with h' | ⟨-, h' | ⟨-, h'⟩⟩
        · exact ne_of_lt h' h
        · exact ne_of_lt h' hc
        · exact not_lt.mpr hl h'
      · rw [if_neg hl, if_pos (hiff.mpr (Or.inr ⟨h, Or.inr ⟨hc, not_le.mp hl⟩⟩))]
    · rw [if_pos (ne_of_gt hc), if_pos hc, if_neg fun hlt => ?_]
      rcases hiff.mp hlt with h' | ⟨-, h' | ⟨h', -⟩⟩
      · exact ne_of_lt h' h
      · exact lt_asymm h' hc
      · exact ne_of_gt hc h'
  · rw [if_pos (ne_of_gt h), if_pos h, if_neg fun hlt => ?_]
    rcases hiff.mp hlt with h' | ⟨h', -⟩
    · exact lt_asymm h' h
    · exact ne_of_gt h h'

theorem resolveSpans_eq_higher (entities : List PIIEntity) :
    resolveSpans entities = Sweep.pass (Sweep.overlaps PIIEntity.start PIIEntity.stop) (Sweep.higher rank)
      (unique entities) := by
  rw [resolveSpans_eq, better_eq]
  rfl

section
variable {entities : List PIIEntity}

theorem proper_unique (proper : ∀ e ∈ entities, e.start < e.stop) : ∀ e ∈ unique entities, e.start < e.stop :=
  fun e he => proper e (mem_of_mem_unique he)

theorem mem_unique_of_mem_resolveSpans {e : PIIEntity} (h : e ∈ resolveSpans entities) : e ∈ unique entities :=
  (mem_resolveSpans.mp h).1

/-- Of two candidates that remain, equal keys mean that they are one. -/
theorem eq_of_key_eq {a b : PIIEntity} (ha : a ∈ unique entities) (hb : b ∈ unique entities) (h : key a = key b) :
    a = b :=
  List.inj_on_of_nodup_map (nodup_keys_unique entities) ha hb h

/-! ### Why a candidate is dropped -/

/-- The candidate has a reason to be dropped: the same finding is kept with at least its confidence, or one that
    it overlaps is kept and ranks at least as high. -/
def Justified (kept : List PIIEntity) (e : PIIEntity) : Prop :=
  (∃ k ∈ kept, key k = key e ∧ e.confidence ≤ k.confidence) ∨
    ∃ k ∈ kept, overlaps e k = true ∧ rank e ≤ rank k

theorem rank_le_of_key_eq {a b : PIIEntity} (hkey : key a = key b) (hle : a.confidence ≤ b.confidence) :
    rank a ≤ rank b := by
  obtain ⟨htype, hspan⟩ := Prod.mk.inj hkey
  obtain ⟨hstart, hstop⟩ := Prod.mk.inj hspan
  rw [← not_lt, rank_lt_iff, htype, hstart, hstop]
  rintro (h | ⟨-, h | ⟨-, h⟩⟩)
  · exact lt_irrefl _ h
  · exact not_lt.mpr hle h
  · exact lt_irrefl _ h

theorem overlaps_of_key_eq {a b : PIIEntity} (hkey : key a = key b) (c : PIIEntity) : overlaps a c = overlaps b c := by
  obtain ⟨-, hspan⟩ := Prod.mk.inj hkey
  obtain ⟨hstart, hstop⟩ := Prod.mk.inj hspan
  rw [overlaps, overlaps, hstart, hstop]

/-- In the text `дом 5 Ан 8999`, a house number, a name and a phone number, each of which overlaps the next. -/
def chain : List PIIEntity :=
  [⟨.house, "дом 5".toList, 0, 5, 1, []⟩, ⟨.personName, "5 Ан".toList, 4, 8, 1, []⟩,
    ⟨.phone, "н 8999".toList, 7, 13, 1, []⟩]

theorem proper_chain : ∀ e ∈ chain, e.start < e.stop := by decide

/-- Every candidate that is dropped is dropped for a reason exactly if, whenever a candidate takes the place of the
    one held, it overlaps all that the one held had beaten. -/
theorem dropped_justified_iff (proper : ∀ e ∈ entities, e.start < e.stop) :
    (∀ e ∈ entities, e ∉ resolveSpans entities → Justified (resolveSpans entities) e) ↔
      Sweep.NoOrphans PIIEntity.start PIIEntity.stop rank (unique entities) := by
  rw [Sweep.noOrphans_iff (sorted_unique entities) (proper_unique proper), ← resolveSpans_eq_higher]
  constructor
  · intro h u hu
    have hself : overlaps u u = true := Sweep.overlaps_self (proper_unique proper u hu)
    by_cases hkept : u ∈ resolveSpans entities
    · exact ⟨u, hkept, hself, le_refl _⟩
    · rcases h u (mem_of_mem_unique hu) hkept with ⟨k, hk, hkey, -⟩ | ⟨k, hk, hmeet, hrank⟩
      · exact absurd (eq_of_key_eq (mem_unique_of_mem_resolveSpans hk) hu hkey ▸ hk) hkept
      · exact ⟨k, hk, hmeet, hrank⟩
  · intro h e he _
    obtain ⟨u, hu, hkey, hle⟩ := exists_mem_unique he
    obtain ⟨k, hk, hmeet, hrank⟩ := h u hu
    refine Or.inr ⟨k, hk, ?_, le_trans (rank_le_of_key_eq hkey.symm hle) hrank⟩
    rw [overlaps_of_key_eq hkey.symm]
    exact hmeet

theorem dropped_justified_iff_chain :
    (∀ e ∈ chain, e ∉ resolveSpans chain → Justified (resolveSpans chain) e) ↔
      Sweep.NoOrphans PIIEntity.start PIIEntity.stop rank (unique chain) :=
  dropped_justified_iff proper_chain

/-- The house number is dropped for the name, which is then dropped for the phone number. -/
theorem house_dropped_without_reason :
    resolveSpans chain = [⟨.phone, "н 8999".toList, 7, 13, 1, []⟩] ∧
      ¬ ∀ e ∈ chain, e ∉ resolveSpans chain → Justified (resolveSpans chain) e := by
  have hkept : resolveSpans chain = [⟨.phone, "н 8999".toList, 7, 13, 1, []⟩] := by decide +kernel
  refine ⟨hkept, fun h => ?_⟩
  rw [hkept] at h
  rcases h ⟨.house, "дом 5".toList, 0, 5, 1, []⟩ List.mem_cons_self (by decide) with
    ⟨k, hk, hkey, -⟩ | ⟨k, hk, hmeet, -⟩
  · obtain rfl := List.mem_singleton.mp hk
    cases hkey
  · obtain rfl := List.mem_singleton.mp hk
    cases hmeet

/-! ### What is kept -/

/-- What the order of the candidates leaves as it is. -/
abbrev Signature := Int × Int × Nat × Rat

def signature (e : PIIEntity) : Signature := (e.start, e.stop, priority e.type, e.confidence)

namespace Signature

def before : Signature → Signature → Prop := Sweep.Before (fun s => s.1) (fun s => s.2.1)

def overlaps : Signature → Signature → Bool := Sweep.overlaps (fun s => s.1) (fun s => s.2.1)

def rank (s : Signature) : Nat ×ₗ Rat ×ₗ Int := toLex (s.2.2.1, toLex (s.2.2.2, s.2.1 - s.1))

theorem span_eq {s t : Signature} (hst : before s t) (hts : before t s) : s.1 = t.1 ∧ s.2.1 = t.2.1 := by
  have hstart : s.1 = t.1 := Int.le_antisymm hst.start_le hts.start_le
  rcases hst with h | ⟨-, hle⟩
  · exact absurd h (not_lt.mpr (le_of_eq hstart.symm))
  rcases hts with h | ⟨-, hle'⟩
  · exact absurd h (not_lt.mpr (le_of_eq hstart))
  exact ⟨hstart, Int.le_antisymm hle hle'⟩

/-- Two findings with one span and one rank look the same. -/
theorem eq_of_rank_eq {s t : Signature} (hst : before s t) (hts : before t s) (h : rank s = rank t) : s = t := by
  obtain ⟨hstart, hstop⟩ := span_eq hst hts
  obtain ⟨hpriority, hrest⟩ := Prod.mk.inj (toLex_inj.mp h)
  obtain ⟨hconfidence, -⟩ := Prod.mk.inj (toLex_inj.mp hrest)
  exact Prod.ext hstart (Prod.ext hstop (Prod.ext hpriority hconfidence))

theorem overlaps_congr {s t : Signature} (hst : before s t) (hts : before t s) (a : Signature) :
    overlaps a s = overlaps a t := by
  obtain ⟨hstart, hstop⟩ := span_eq hst hts
  simp only [overlaps, Sweep.overlaps, hstart, hstop]

theorem pass_perm {l m : List Signature} (hperm : l.Perm m) (hl : l.Pairwise before) (hm : m.Pairwise before)
    (proper : ∀ s ∈ l, s.1 < s.2.1) :
    Sweep.pass overlaps (Sweep.higher rank) l = Sweep.pass overlaps (Sweep.higher rank) m := by
  refine Sweep.pass_perm (r := before) (Sweep.higher_chooses rank) ?_ ?_ ?_ ?_ hperm hl hm ?_
  · exact fun a s t hst hts => overlaps_congr hst hts a
  · exact fun s t hst hts hself => (overlaps_congr hst hts s).symm.trans hself
  · exact fun s t hst hts => Sweep.higher_comm (eq_of_rank_eq hst hts)
  · exact fun a s t hst hts => Sweep.higher_right_comm (eq_of_rank_eq hst hts) a
  · exact fun s hs => Sweep.overlaps_self (proper s hs)

end Signature

theorem signatures_resolveSpans (entities : List PIIEntity) :
    (resolveSpans entities).map signature =
      Sweep.pass Signature.overlaps (Sweep.higher Signature.rank) ((unique entities).map signature) := by
  have hmeets : ∀ a b, Signature.overlaps (signature a) (signature b) =
      Sweep.overlaps PIIEntity.start PIIEntity.stop a b := fun a b => rfl
  have hhigher : ∀ a b, Sweep.higher Signature.rank (signature a) (signature b) = signature (Sweep.higher rank a b) := by
    intro a b
    rw [Sweep.higher, Sweep.higher, apply_ite signature]
    rfl
  rw [resolveSpans_eq_higher]
  exact Sweep.map_pass _ _ hmeets hhigher _

theorem signatures_sorted (entities : List PIIEntity) : ((unique entities).map signature).Pairwise Signature.before := by
  rw [List.pairwise_map]
  exact sorted_unique entities

/-- What remains of equal keys is determined by the set of the candidates. -/
theorem confidence_of_subset {l m : List PIIEntity} (hlm : l ⊆ m) (hml : m ⊆ l) {u : PIIEntity} (hu : u ∈ unique l) :
    ∃ v ∈ unique m, key v = key u ∧ v.confidence = u.confidence := by
  obtain ⟨v, hv, hkey, hle⟩ := exists_mem_unique (hlm (mem_of_mem_unique hu))
  obtain ⟨w, hw, hkey', hle'⟩ := exists_mem_unique (hml (mem_of_mem_unique hv))
  obtain rfl : w = u := eq_of_key_eq hw hu (hkey'.trans hkey)
  exact ⟨v, hv, hkey, Rat.le_antisymm hle' hle⟩

theorem signatures_perm {l m : List PIIEntity} (h : l.Perm m) :
    ((unique l).map signature).Perm ((unique m).map signature) := by
  have hnodup : ∀ l : List PIIEntity, ((unique l).map fun e => (key e, e.confidence)).Nodup := fun l =>
    List.Nodup.of_map Prod.fst (by rw [List.map_map]; exact nodup_keys_unique l)
  have hmem : ∀ {l m : List PIIEntity}, l ⊆ m → m ⊆ l → ∀ x, x ∈ (unique l).map (fun e => (key e, e.confidence)) →
      x ∈ (unique m).map fun e => (key e, e.confidence) := by
    intro l m hlm hml x hx
    obtain ⟨u, hu, rfl⟩ := List.mem_map.mp hx
    obtain ⟨v, hv, hkey, hconfidence⟩ := confidence_of_subset hlm hml hu
    exact List.mem_map.mpr ⟨v, hv, Prod.ext hkey hconfidence⟩
  have hkeys : ((unique l).map fun e => (key e, e.confidence)).Perm ((unique m).map fun e => (key e, e.confidence)) :=
    (List.perm_ext_iff_of_nodup (hnodup l) (hnodup m)).mpr fun x =>
      ⟨hmem h.subset h.symm.subset x, hmem h.symm.subset h.subset x⟩
  have hsignatures := hkeys.map fun x => (x.1.2.1, x.1.2.2, priority x.1.1, x.2)
  rw [List.map_map, List.map_map] at hsignatures
  exact hsignatures

/-- A list that is sorted and stands apart is resolved already. -/
theorem resolveSpans_eq_self {l : List PIIEntity} (hkeys : (l.map key).Nodup) (hsorted : l.Pairwise before)
    (hapart : l.Pairwise fun a b => overlaps a b = false) : resolveSpans l = l := by
  have hvalues : (deduplicate l).values = l :=
    foldl_keepBest_of_new OrderedDict.empty (fun e _ => rfl) hkeys
  rw [resolveSpans_eq, unique, hvalues, hsorted.insertionSort_eq]
  exact Sweep.pass_eq_self hapart

/-- What is kept is a part of the candidates, sorted and without overlaps, is resolved already, and does not depend
    on their order. -/
theorem resolveSpans_spec (proper : ∀ e ∈ entities, e.start < e.stop) :
    (resolveSpans entities).Subperm entities ∧
      (resolveSpans entities).Pairwise (fun a b => a.start < b.start) ∧
      (resolveSpans entities).Pairwise (fun a b => overlaps a b = false) ∧
      resolveSpans (resolveSpans entities) = resolveSpans entities ∧
      ∀ permuted, entities.Perm permuted →
        (resolveSpans permuted).map signature = (resolveSpans entities).map signature := by
  have hmem : ∀ e ∈ resolveSpans entities, e ∈ entities := fun e he =>
    mem_of_mem_unique (mem_unique_of_mem_resolveSpans he)
  have hapart := pairwise_resolveSpans fun e he => le_of_lt (proper e he)
  have hsorted : (resolveSpans entities).Pairwise (fun a b => a.start < b.start) :=
    hapart.imp_of_mem fun {a b} ha _ hab => lt_of_lt_of_le (proper a (hmem a ha)) hab
  have hdisjoint : (resolveSpans entities).Pairwise (fun a b => overlaps a b = false) :=
    hapart.imp fun hab => Sweep.not_overlaps_of_le hab
  have hkeys : ((resolveSpans entities).map key).Nodup := by
    rw [List.Nodup, List.pairwise_map]
    exact hsorted.imp fun hab heq => ne_of_lt hab (congrArg (fun k : Key => k.2.1) heq)
  refine ⟨List.subperm_of_subset (List.Nodup.of_map key hkeys) hmem, hsorted, hdisjoint, ?_, ?_⟩
  · exact resolveSpans_eq_self hkeys (hsorted.imp fun hab => Or.inl hab) hdisjoint
  · intro permuted hperm
    rw [signatures_resolveSpans, signatures_resolveSpans]
    refine Signature.pass_perm (signatures_perm hperm.symm) (signatures_sorted permuted) (signatures_sorted entities)
      fun s hs => ?_
    obtain ⟨e, he, rfl⟩ := List.mem_map.mp hs
    exact proper e (hperm.symm.subset (mem_of_mem_unique he))

end

theorem resolveSpans_spec_chain :
    (resolveSpans chain).Subperm chain ∧
      (resolveSpans chain).Pairwise (fun a b => a.start < b.start) ∧
      (resolveSpans chain).Pairwise (fun a b => overlaps a b = false) ∧
      resolveSpans (resolveSpans chain) = resolveSpans chain ∧
      ∀ permuted, chain.Perm permuted → (resolveSpans permuted).map signature = (resolveSpans chain).map signature :=
  resolveSpans_spec proper_chain

end PiiProxy.Resolution
