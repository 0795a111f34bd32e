import Mathlib.Data.List.Infix
import PiiProxy.Lib.Replace
import PiiProxy.Python.Unicode

/-! The `str` methods that the detectors, the masking engine and the stores call. -/

namespace PiiProxy

/-- `text[a:b]` for bounds that are not negative. -/
def slice (text : Str) (a b : Nat) : Str := (text.drop a).take (b - a)

/-- `needle in text`. -/
def isIn (needle text : Str) : Bool := text.tails.any needle.isPrefixOf

/-- `text.find(needle)`; `none` stands for -1. -/
def find (needle : Str) : Str → Option Nat
  | [] => if needle.isEmpty then some 0 else none
  | c :: text => if needle.isPrefixOf (c :: text) then some 0 else (find needle text).map (· + 1)

/-- The lower case of one character as `re` compares it without case: exact on ASCII, on the basic
    Cyrillic letters and on the two other characters that become an ASCII letter. Nothing in the source
    compares a text with a letter that any other character could become. -/
def lowerChar (c : Char) : Char :=
  if 'A' ≤ c ∧ c ≤ 'Z' then Char.ofNat (c.toNat + 32)
  else if 'А' ≤ c ∧ c ≤ 'Я' then Char.ofNat (c.toNat + 32)
  else if 'Ѐ' ≤ c ∧ c ≤ 'Џ' then Char.ofNat (c.toNat + 80)
  else if c = 'İ' then 'i'
  else if c = 'K' then 'k'
  else c

/-- `text.lower()`, to the precision of `lowerChar`; the lower case of `İ` has a combining dot. -/
def lower (text : Str) : Str := text.flatMap fun c => if c = 'İ' then ['i', Char.ofNat 0x307] else [lowerChar c]

def rstrip (text : Str) : Str := text.rdropWhile isspace

def strip (text : Str) : Str := (text.dropWhile isspace).rdropWhile isspace

/-- `text.split()`: the maximal runs of characters that are not white space. -/
def split (text : Str) : List Str := (text.splitBy fun a b => isspace a == isspace b).filter fun w => !w.all isspace

/-- `text.partition(sep)` for a single character that is in the text: what stands before it and after it. -/
def partitionAt (sep : Char) (text : Str) : Str × Str :=
  (text.takeWhile (· != sep), (text.dropWhile (· != sep)).drop 1)

/-- `text.split(sep, 1)[0]` for a single character: the text before the first one. -/
def beforeFirst (sep : Char) (text : Str) : Str := text.takeWhile (· != sep)

/-- `text.rsplit(sep, 1)[-1]` for a single character: the text after the last one. -/
def afterLast (sep : Char) (text : Str) : Str := text.rtakeWhile (· != sep)

/-- `text.replace(old, new)`; the empty text stands before every character and at the end. -/
def replace (text old new : Str) : Str :=
  if old.isEmpty then new ++ text.flatMap fun c => c :: new else Replace.scan old new 0 text

theorem afterLast_of_not_mem {sep : Char} {text : Str} (h : sep ∉ text) : afterLast sep text = text :=
  List.rtakeWhile_eq_self_iff.mpr fun c hc => by
    rw [bne_iff_ne]
    rintro rfl
    exact h hc

theorem afterLast_append {sep : Char} {a b : Str} (h : sep ∉ b) : afterLast sep (a ++ sep :: b) = b := by
  induction b using List.reverseRecOn with
  | nil => exact List.rtakeWhile_concat_neg _ _ _ (by simp)
  | append_singleton b c ih =>
    rw [List.mem_append, not_or, List.mem_singleton] at h
    rw [← List.cons_append, ← List.append_assoc, afterLast, List.rtakeWhile_concat_pos _ _ _ (by simpa using Ne.symm h.2)]
    exact congrArg (· ++ [c]) (ih h.1)

/-- What stands before a text that has the separator does not matter. -/
theorem afterLast_append_of_mem {sep : Char} {b : Str} (h : sep ∈ b) (a : Str) :
    afterLast sep (a ++ b) = afterLast sep b := by
  obtain ⟨s, t, hsplit, hfirst⟩ := List.eq_append_cons_of_mem (List.mem_reverse.mpr h)
  have hb : b = t.reverse ++ sep :: s.reverse := by
    rw [← List.reverse_reverse b, hsplit]
    simp
  have hlast : sep ∉ s.reverse := fun hmem => hfirst (List.mem_reverse.mp hmem)
  rw [hb, ← List.append_assoc, afterLast_append hlast, afterLast_append hlast]

theorem length_slice {text : Str} {a b : Nat} (h : b ≤ text.length) : (slice text a b).length = b - a := by
  simp only [slice, List.length_take, List.length_drop]
  omega

theorem getElem?_slice {text : Str} {a b i : Nat} : (slice text a b)[i]? = if i < b - a then text[a + i]? else none := by
  simp only [slice, List.getElem?_take, List.getElem?_drop]

theorem find_eq_some {needle text : Str} {i : Nat} :
    find needle text = some i ↔ needle <+: text.drop i ∧ i ≤ text.length ∧ ∀ j < i, ¬ needle <+: text.drop j := by
  induction text generalizing i with
  | nil =>
    rw [find, List.drop_nil, List.prefix_nil]
    cases needle with
    | nil =>
      constructor
      · rintro ⟨⟩
        exact ⟨rfl, Nat.le_refl 0, fun j hj => absurd hj (Nat.not_lt_zero j)⟩
      · rintro ⟨-, hle, -⟩
        rw [Nat.le_zero.mp hle]
        rfl
    | cons c needle => simp
  | cons c text ih =>
    rw [find]
    by_cases hhere : needle <+: c :: text
    · rw [if_pos (List.isPrefixOf_iff_prefix.mpr hhere), Option.some.injEq]
      constructor
      · rintro rfl
        exact ⟨hhere, Nat.zero_le _, fun j hj => absurd hj (Nat.not_lt_zero j)⟩
      · rintro ⟨-, -, hfirst⟩
        by_contra hne
        exact hfirst 0 (Nat.pos_of_ne_zero (Ne.symm hne)) hhere
    · rw [if_neg fun h => hhere (List.isPrefixOf_iff_prefix.mp h), Option.map_eq_some_iff]
      constructor
      · rintro ⟨j, hj, rfl⟩
        obtain ⟨hfound, hle, hfirst⟩ := ih.mp hj
        refine ⟨hfound, Nat.succ_le_succ hle, fun m hm => ?_⟩
        cases m with
        | zero => exact hhere
        | succ m => exact hfirst m (Nat.lt_of_succ_lt_succ hm)
      · rintro ⟨hfound, hle, hfirst⟩
        cases i with
        | zero => exact absurd hfound hhere
        | succ i =>
          exact ⟨i, ih.mpr ⟨hfound, Nat.le_of_succ_le_succ hle, fun j hj => hfirst (j + 1) (Nat.succ_lt_succ hj)⟩, rfl⟩

theorem isIn_iff {needle text : Str} : isIn needle text = true ↔ needle <:+: text := by
  simp only [isIn, List.any_eq_true, List.mem_tails, List.isPrefixOf_iff_prefix]
  constructor
  · rintro ⟨t, hsuf, hpre⟩
    exact hpre.isInfix.trans hsuf.isInfix
  · rintro ⟨s, t, rfl⟩
    exact ⟨needle ++ t, ⟨s, by simp⟩, List.prefix_append _ _⟩

/-- A text contains another one if it reads the same from some place on. -/
theorem isIn_iff_getElem? {needle text : Str} :
    isIn needle text = true ↔ ∃ o : Nat, ∀ (i : Nat) c, needle[i]? = some c → text[o + i]? = some c := by
  rw [isIn_iff]
  constructor
  · rintro ⟨s, t, rfl⟩
    refine ⟨s.length, fun i c hc => ?_⟩
    have hi : i < needle.length := (List.getElem?_eq_some_iff.mp hc).1
    rw [List.append_assoc, List.getElem?_append_right (Nat.le_add_right _ _), Nat.add_sub_cancel_left,
      List.getElem?_append_left hi, hc]
  · rintro ⟨o, ho⟩
    have hpre : needle <+: text.drop o := List.prefix_iff_getElem?.mpr fun i hi => by
      rw [List.getElem?_drop]
      exact ho i _ (List.getElem?_eq_getElem hi)
    exact hpre.isInfix.trans (List.drop_suffix o text).isInfix

end PiiProxy
