import PiiProxy.Lib.Regex

/-! # Runs of characters of one class

A greedy repetition of one class tries the longest run of such characters first, and then each shorter one. An expression
that takes characters of a class between two tests for others matches whole runs only, and the scan comes to each of
them. -/

namespace Backtrack

variable {α : Type} {p : α → Bool} {text : List α} {i j : Nat}

/-! ### Characters in a row -/

/-- All characters of `[i, j)` belong to the class. -/
def Within (p : α → Bool) (text : List α) (i j : Nat) : Prop := ∀ k, i ≤ k → k < j → ∃ x, text[k]? = some x ∧ p x = true

/-- How many characters of the class stand in a row from `i` on. -/
def runLength (p : α → Bool) (text : List α) (i : Nat) : Nat := ((text.drop i).takeWhile p).length

theorem Within.mono {i' j' : Nat} (h : Within p text i j) (hi : i ≤ i') (hj : j' ≤ j) : Within p text i' j' :=
  fun k hik hkj => h k (Nat.le_trans hi hik) (Nat.lt_of_lt_of_le hkj hj)

theorem Within.imp {q : α → Bool} (hpq : ∀ x, p x = true → q x = true) (h : Within p text i j) : Within q text i j := by
  intro k hik hkj
  obtain ⟨x, hx, hp⟩ := h k hik hkj
  exact ⟨x, hx, hpq x hp⟩

theorem Within.not_of_getElem? (h : Within p text i j) {k : Nat} {x : α} (hik : i ≤ k) (hx : text[k]? = some x)
    (hp : p x = false) : j ≤ k := by
  by_contra hlt
  obtain ⟨y, hy, hpy⟩ := h k hik (Nat.lt_of_not_le hlt)
  obtain rfl := Option.some.inj (hx.symm.trans hy)
  rw [hp] at hpy
  cases hpy

theorem Within.le_length (h : Within p text i j) (hi : i ≤ text.length) : j ≤ text.length := by
  by_contra hlt
  obtain ⟨x, hx, -⟩ := h text.length hi (Nat.lt_of_not_le hlt)
  rw [List.getElem?_eq_none (Nat.le_refl _)] at hx
  cases hx

theorem Within.trans {k : Nat} (h : Within p text i j) (h' : Within p text j k) : Within p text i k := by
  intro n hin hnk
  rcases Nat.lt_or_ge n j with hlt | hge
  · exact h n hin hlt
  · exact h' n hge hnk

theorem within_succ {x : α} (hx : text[i]? = some x) (hp : p x = true) : Within p text i (i + 1) := by
  intro k hik hki
  obtain rfl : k = i := by omega
  exact ⟨x, hx, hp⟩

theorem runLength_eq_succ {x : α} (hx : text[i]? = some x) (hp : p x = true) :
    runLength p text i = runLength p text (i + 1) + 1 := by
  obtain ⟨hlt, rfl⟩ := List.getElem?_eq_some_iff.mp hx
  rw [runLength, List.drop_eq_getElem_cons hlt, List.takeWhile_cons, if_pos hp]
  rfl

theorem runLength_eq_zero (h : ∀ x, text[i]? = some x → p x = false) : runLength p text i = 0 := by
  rw [runLength]
  rcases Nat.lt_or_ge i text.length with hlt | hge
  · have hp := h _ (List.getElem?_eq_getElem hlt)
    rw [List.drop_eq_getElem_cons hlt, List.takeWhile_cons, hp]
    rfl
  · rw [List.drop_eq_nil_iff.mpr hge]
    rfl

theorem le_runLength_iff {n : Nat} : n ≤ runLength p text i ↔ Within p text i (i + n) := by
  induction n generalizing i with
  | zero => exact ⟨fun _ k hik hki => absurd hki (Nat.not_lt.mpr hik), fun _ => Nat.zero_le _⟩
  | succ n ih =>
    by_cases hstep : ∃ x, text[i]? = some x ∧ p x = true
    · obtain ⟨x, hx, hp⟩ := hstep
      rw [runLength_eq_succ hx hp, Nat.add_le_add_iff_right, ih, Nat.add_right_comm, Nat.add_assoc i n 1]
      exact ⟨fun h => (within_succ hx hp).trans h, fun h => h.mono (Nat.le_succ i) (Nat.le_refl _)⟩
    · have hzero : runLength p text i = 0 := runLength_eq_zero fun x hx => by
        rw [← Bool.not_eq_true]
        exact fun hp => hstep ⟨x, hx, hp⟩
      rw [hzero]
      exact ⟨fun h => absurd h (Nat.not_succ_le_zero n), fun h => absurd (h i (Nat.le_refl i) (by omega)) hstep⟩

theorem Within.sub_le_runLength (hij : i ≤ j) (h : Within p text i j) : j - i ≤ runLength p text i := by
  rw [le_runLength_iff, Nat.add_sub_cancel' hij]
  exact h

instance : Decidable (Within p text i j) :=
  decidable_of_iff (j - i ≤ runLength p text i) (by
    rw [le_runLength_iff]
    exact ⟨fun h k hik hkj => h k hik (by omega), fun h k hik hkj => h k hik (by omega)⟩)

theorem runLength_pos_iff : 0 < runLength p text i ↔ ∃ x, text[i]? = some x ∧ p x = true := by
  rw [← Nat.succ_le_iff, le_runLength_iff]
  constructor
  · exact fun h => h i (Nat.le_refl i) (Nat.lt_succ_self i)
  · rintro ⟨x, hx, hp⟩
    exact within_succ hx hp

theorem within_runLength (p : α → Bool) (text : List α) (i : Nat) : Within p text i (i + runLength p text i) :=
  le_runLength_iff.mp (Nat.le_refl _)

theorem not_of_runLength {x : α} (hx : text[i + runLength p text i]? = some x) : p x = false := by
  rw [← Bool.not_eq_true]
  intro hp
  have hlonger : Within p text i (i + (runLength p text i + 1)) := (within_runLength p text i).trans (within_succ hx hp)
  exact Nat.not_succ_le_self _ (le_runLength_iff.mpr hlonger)

/-- A run that ends before another character has its full length. -/
theorem runLength_of_stop (hij : i ≤ j) (h : Within p text i j) (hstop : ∀ x, text[j]? = some x → p x = false) :
    i + runLength p text i = j := by
  have hle := h.sub_le_runLength hij
  by_contra hne
  obtain ⟨x, hx, hp⟩ := within_runLength p text i j hij (by omega)
  rw [hstop x hx] at hp
  cases hp

theorem runLength_le (p : α → Bool) (text : List α) (i : Nat) : runLength p text i ≤ text.length - i := by
  rw [runLength, ← List.length_drop]
  exact (List.takeWhile_prefix p).length_le

/-! ### Repetitions of one class -/

/-- The cursors from `i` to `i + n`, the last one first. -/
def backTo (text : List α) (i : Nat) : Nat → List (Cursor α)
  | 0 => [Cursor.at text i]
  | n + 1 => backTo text (i + 1) n ++ [Cursor.at text i]

theorem mem_backTo {n : Nat} {d : Cursor α} : d ∈ backTo text i n ↔ ∃ j, i ≤ j ∧ j ≤ i + n ∧ d = Cursor.at text j := by
  induction n generalizing i with
  | zero =>
    rw [backTo, List.mem_singleton]
    constructor
    · rintro rfl
      exact ⟨i, Nat.le_refl i, Nat.le_refl i, rfl⟩
    · rintro ⟨j, hij, hji, rfl⟩
      obtain rfl : j = i := Nat.le_antisymm hji hij
      rfl
  | succ n ih =>
    rw [backTo, List.mem_append, List.mem_singleton, ih]
    constructor
    · rintro (⟨j, hij, hji, rfl⟩ | rfl)
      · exact ⟨j, by omega, by omega, rfl⟩
      · exact ⟨i, Nat.le_refl i, Nat.le_add_right i _, rfl⟩
    · rintro ⟨j, hij, hji, rfl⟩
      rcases Nat.eq_or_lt_of_le hij with rfl | hlt
      · exact Or.inr rfl
      · exact Or.inl ⟨j, hlt, by omega, rfl⟩

theorem head?_backTo (text : List α) (i n : Nat) : (backTo text i n).head? = some (Cursor.at text (i + n)) := by
  induction n generalizing i with
  | zero => rfl
  | succ n ih => rw [backTo, List.head?_append, ih, Option.some_or, Nat.add_assoc, Nat.add_comm 1 n]

/-- The first result goes back as little as possible. -/
theorem head?_flatMap_backTo {k : Cursor α → List (Cursor α)} {n : Nat} {d : Cursor α} :
    ((backTo text i n).flatMap k).head? = some d ↔ ∃ j, i ≤ j ∧ j ≤ i + n ∧ (k (Cursor.at text j)).head? = some d ∧
      ∀ j', j < j' → j' ≤ i + n → k (Cursor.at text j') = [] := by
  induction n generalizing i d with
  | zero =>
    rw [backTo, List.flatMap_singleton]
    constructor
    · exact fun h => ⟨i, Nat.le_refl i, Nat.le_refl i, h, fun j' hlt hle => absurd hle (Nat.not_le.mpr hlt)⟩
    · rintro ⟨j, hij, hji, h, -⟩
      rw [Nat.le_antisymm hij hji]
      exact h
  | succ n ih =>
    rw [backTo, List.flatMap_append, List.head?_append, List.flatMap_singleton]
    cases hlater : ((backTo text (i + 1) n).flatMap k).head? with
    | some d' =>
      obtain ⟨j, hij, hji, hj, hlast⟩ := (ih (i := i + 1)).mp hlater
      rw [Option.some_or]
      constructor
      · intro h
        obtain rfl := Option.some.inj h
        exact ⟨j, by omega, by omega, hj, fun j' hlt hle => hlast j' hlt (by omega)⟩
      · rintro ⟨j', hij', hji', hj', hlast'⟩
        rcases Nat.lt_trichotomy j j' with hlt | rfl | hlt
        · rw [hlast j' hlt (by omega)] at hj'
          cases hj'
        · exact hj.symm.trans hj'
        · rw [hlast' j hlt (by omega)] at hj
          cases hj
    | none =>
      have hnone : ∀ j, i + 1 ≤ j → j ≤ i + 1 + n → k (Cursor.at text j) = [] := by
        intro j hij hji
        exact List.flatMap_eq_nil_iff.mp (List.head?_eq_none_iff.mp hlater) _ (mem_backTo.mpr ⟨j, hij, hji, rfl⟩)
      rw [Option.none_or]
      constructor
      · exact fun h => ⟨i, Nat.le_refl i, Nat.le_add_right i _, h, fun j' hlt hle => hnone j' hlt (by omega)⟩
      · rintro ⟨j, hij, hji, hj, -⟩
        rcases Nat.eq_or_lt_of_le hij with rfl | hlt
        · exact hj
        · rw [hnone j hlt (by omega)] at hj
          cases hj

theorem char_runs_at (p : α → Bool) (text : List α) (i : Nat) : (Regex.char p).runs (Cursor.at text i) =
    if 0 < runLength p text i then [Cursor.at text (i + 1)] else [] := by
  have hrest : (Cursor.at text i).rest = text.drop i := rfl
  rw [Regex.runs, hrest]
  rcases Nat.lt_or_ge i text.length with hlt | hge
  · rw [List.drop_eq_getElem_cons hlt]
    simp only
    cases hp : p text[i] with
    | true =>
      rw [runLength_eq_succ (List.getElem?_eq_getElem hlt) hp, if_pos rfl, if_pos (Nat.succ_pos _)]
      simp [Cursor.at, List.getElem?_eq_getElem hlt]
    | false =>
      have hzero : runLength p text i = 0 := runLength_eq_zero fun x hx => by
        obtain rfl := Option.some.inj ((List.getElem?_eq_getElem hlt).symm.trans hx)
        exact hp
      rw [hzero, if_neg (Bool.false_ne_true), if_neg (Nat.lt_irrefl 0)]
  · rw [List.drop_eq_nil_iff.mpr hge, runLength_eq_zero fun x hx => by rw [List.getElem?_eq_none hge] at hx; cases hx]
    rfl

theorem runLength_add {n : Nat} (h : n ≤ runLength p text i) : runLength p text (i + n) = runLength p text i - n := by
  have hwithin : Within p text (i + n) (i + runLength p text i) :=
    (within_runLength p text i).mono (Nat.le_add_right i n) (Nat.le_refl _)
  have hstop := runLength_of_stop (Nat.add_le_add_left h i) hwithin fun x hx => not_of_runLength hx
  omega

theorem required_char (n : Nat) : required (Regex.char p).runs n (Cursor.at text i) =
    if n ≤ runLength p text i then [Cursor.at text (i + n)] else [] := by
  induction n generalizing i with
  | zero => rw [required, if_pos (Nat.zero_le _)]; rfl
  | succ n ih =>
    rw [required, char_runs_at]
    split
    · rename_i hpos
      have hnext := runLength_add hpos
      rw [List.flatMap_singleton, ih, hnext, Nat.add_assoc, Nat.add_comm 1 n]
      by_cases hn : n + 1 ≤ runLength p text i
      · rw [if_pos hn, if_pos (by omega)]
      · rw [if_neg hn, if_neg (by omega)]
    · rw [if_neg (by omega)]
      rfl

theorem optional_char (n : Nat) : optional (Regex.char p).runs true n (Cursor.at text i) =
    backTo text i (min n (runLength p text i)) := by
  induction n generalizing i with
  | zero => rw [optional, Nat.zero_min]; rfl
  | succ n ih =>
    simp only [optional, if_true]
    rw [char_runs_at]
    split
    · rename_i hpos
      have hnext := runLength_add hpos
      have hmin : min (n + 1) (runLength p text i) = min n (runLength p text (i + 1)) + 1 := by
        rw [hnext, ← Nat.add_min_add_right, Nat.sub_add_cancel hpos]
      have hfilter : [Cursor.at text (i + 1)].filter (fun d => (Cursor.at text i).pos < d.pos) = [Cursor.at text (i + 1)] :=
        List.filter_eq_self.mpr fun d hd => by
          rw [List.mem_singleton.mp hd]
          exact decide_eq_true (Nat.lt_succ_self i)
      rw [hfilter, List.flatMap_singleton, ih, hmin, backTo]
    · rw [show min (n + 1) (runLength p text i) = 0 by omega]
      rfl

/-- The greedy repetitions of a class, with and without a bound. -/
theorem rep_char_runs (least : Nat) (more : Option Nat) : (Regex.rep (.char p) least more true).runs (Cursor.at text i) =
    if least ≤ runLength p text i then
      backTo text (i + least) (min (more.getD (text.length - (i + least))) (runLength p text i - least))
    else [] := by
  rw [Regex.runs, required_char]
  split
  · rename_i hleast
    have hrest : (Cursor.at text (i + least)).rest.length = text.length - (i + least) := List.length_drop
    rw [List.flatMap_singleton, hrest, optional_char, runLength_add hleast]
  · rfl

theorem rep_char_runs_none (least : Nat) : (Regex.rep (.char p) least none true).runs (Cursor.at text i) =
    if least ≤ runLength p text i then backTo text (i + least) (runLength p text i - least) else [] := by
  have hle := runLength_le p text i
  rw [rep_char_runs, Option.getD_none, Nat.min_eq_right (by omega)]

/-! ### Where the scan comes -/

/-- The scan looks for a match at `i`, or `i` lies inside a match that it reports. -/
theorem Regex.reaches_or_crosses {r : Regex α} (hi : i ≤ text.length) :
    r.Reaches text 0 i ∨ ∃ m ∈ r.finditer text, m.start < i ∧ i < m.stop := by
  have hreach : ∀ n ≤ i, (∃ k, r.Reaches text 0 k ∧ n ≤ k ∧ k ≤ i) ∨ ∃ m ∈ r.finditer text, m.start < i ∧ i < m.stop := by
    intro n
    induction n with
    | zero => exact fun _ => Or.inl ⟨0, .refl, Nat.le_refl 0, Nat.zero_le i⟩
    | succ n ih =>
      intro hn
      rcases ih (Nat.le_of_succ_le hn) with ⟨k, hk, hnk, hki⟩ | hcross
      · rcases Nat.eq_or_lt_of_le hnk with rfl | hlt
        · -- From `n` the scan makes one step.
          have hlt : n < text.length := Nat.lt_of_lt_of_le hn hi
          cases hm : r.match? (Cursor.at text n) with
          | none => exact Or.inl ⟨n + 1, hk.tail ⟨hlt, by rw [hm]⟩, Nat.le_refl _, hn⟩
          | some m =>
            have hstart := (Regex.match?_bounds (Nat.le_of_lt hlt) hm).1
            rcases Nat.lt_or_ge i m.stop with hstop | hstop
            · refine Or.inr ⟨m, Regex.mem_finditer.mpr ⟨hstart ▸ hk, hstart ▸ hm⟩, ?_, hstop⟩
              rw [hstart]
              exact hn
            · exact Or.inl ⟨max m.stop (n + 1), hk.tail ⟨hlt, by rw [hm]⟩, Nat.le_max_right _ _, Nat.max_le.mpr ⟨hstop, hn⟩⟩
        · exact Or.inl ⟨k, hk, hlt, hki⟩
      · exact Or.inr hcross
  rcases hreach i (Nat.le_refl i) with ⟨k, hk, hik, hki⟩ | hcross
  · exact Or.inl (Nat.le_antisymm hki hik ▸ hk)
  · exact Or.inr hcross

/-- Behind a match the scan goes on. -/
theorem Regex.reaches_stop {r : Regex α} {m : Match} (hm : m ∈ r.finditer text) (hlt : m.start < m.stop) :
    r.Reaches text 0 m.stop := by
  obtain ⟨hreach, hmatch⟩ := Regex.mem_finditer.mp hm
  have hstop := (Regex.match?_bounds hreach.le_length hmatch).2.2
  refine hreach.tail ⟨Nat.lt_of_lt_of_le hlt hstop, ?_⟩
  rw [hmatch]
  exact (Nat.max_eq_left hlt).symm

/-! ### Whole runs -/

/-- A run of characters of the class that is not part of a longer one. -/
structure WholeRun (p : α → Bool) (text : List α) (i j : Nat) : Prop where
  lt : i < j
  within : Within p text i j
  before : i ≠ 0 → ∀ x, text[i - 1]? = some x → p x = false
  after : ∀ x, text[j]? = some x → p x = false

theorem WholeRun.stop_eq (h : WholeRun p text i j) : i + runLength p text i = j :=
  runLength_of_stop (Nat.le_of_lt h.lt) h.within h.after

theorem WholeRun.unique {j' : Nat} (h : WholeRun p text i j) (h' : WholeRun p text i j') : j = j' :=
  h.stop_eq.symm.trans h'.stop_eq

theorem WholeRun.stop_le (h : WholeRun p text i j) : j ≤ text.length := by
  obtain ⟨x, hx, -⟩ := h.within (j - 1) (Nat.le_sub_one_of_lt h.lt) (Nat.sub_one_lt (Nat.ne_zero_of_lt h.lt))
  have := (List.getElem?_eq_some_iff.mp hx).1
  omega

/-- A whole run does not begin inside another one. -/
theorem WholeRun.not_inside {i' j' : Nat} (h : WholeRun p text i j) (h' : WholeRun p text i' j') (hlt : i' < i) : j' ≤ i := by
  by_contra hcross
  obtain ⟨x, hx, hp⟩ := h'.within (i - 1) (by omega) (by omega)
  rw [h.before (by omega) x hx] at hp
  cases hp

/-- The expression matches the whole runs of certain lengths, and nothing else. -/
def Regex.TakesRuns (p : α → Bool) (lengths : Nat → Prop) (r : Regex α) : Prop :=
  ∀ (text : List α) (i : Nat) (d : Cursor α), d ∈ r.runs (Cursor.at text i) ↔
    ∃ j, WholeRun p text i j ∧ lengths (j - i) ∧ d = Cursor.at text j

theorem Regex.TakesRuns.congr {lengths lengths' : Nat → Prop} {r : Regex α} (hr : r.TakesRuns p lengths)
    (h : ∀ n, lengths n ↔ lengths' n) : r.TakesRuns p lengths' :=
  (funext fun n => propext (h n) : lengths = lengths') ▸ hr

theorem Regex.TakesRuns.alt {lengths lengths' : Nat → Prop} {r s : Regex α} (hr : r.TakesRuns p lengths)
    (hs : s.TakesRuns p lengths') : (Regex.alt r s).TakesRuns p fun n => lengths n ∨ lengths' n := by
  intro text i d
  rw [Regex.runs, List.mem_append, hr, hs]
  constructor
  · rintro (⟨j, hrun, hn, rfl⟩ | ⟨j, hrun, hn, rfl⟩)
    · exact ⟨j, hrun, Or.inl hn, rfl⟩
    · exact ⟨j, hrun, Or.inr hn, rfl⟩
  · rintro ⟨j, hrun, hn | hn, rfl⟩
    · exact Or.inl ⟨j, hrun, hn, rfl⟩
    · exact Or.inr ⟨j, hrun, hn, rfl⟩

/-- `(?<!p)p{least,least+more}(?!p)` -/
theorem Regex.takesRuns (p : α → Bool) {least : Nat} (more : Nat) (hleast : 0 < least) :
    (Regex.seq (.look fun before _ => !before.any p) (.seq (.rep (.char p) least (some more) true)
      (.look fun _ rest => !rest.head?.any p))).TakesRuns p fun n => least ≤ n ∧ n ≤ least + more := by
  intro text i d
  have hnone : ∀ o : Option α, (!o.any p) = true ↔ ∀ x, o = some x → p x = false := by
    intro o
    cases o <;> simp
  have hbefore : (!(Cursor.at text i).before.any p) = true ↔ (i ≠ 0 → ∀ x, text[i - 1]? = some x → p x = false) := by
    by_cases hzero : i = 0
    · simp [Cursor.at, hzero]
    · rw [hnone, Cursor.at, if_neg hzero]
      exact ⟨fun h _ => h, fun h => h hzero⟩
  have hafter : ∀ j, (!(Cursor.at text j).rest.head?.any p) = true ↔ ∀ x, text[j]? = some x → p x = false := by
    intro j
    rw [hnone, Cursor.at, List.head?_drop]
  rw [Regex.runs, List.mem_flatMap]
  constructor
  · rintro ⟨c, hc, hd⟩
    obtain ⟨hlook, rfl⟩ := Regex.mem_runs_look.mp hc
    obtain ⟨e, he, hd⟩ := List.mem_flatMap.mp hd
    obtain ⟨hstop, rfl⟩ := Regex.mem_runs_look.mp hd
    rw [rep_char_runs] at he
    split at he
    · rename_i hrun
      obtain ⟨j, hij, hji, rfl⟩ := mem_backTo.mp he
      rw [Option.getD_some] at hji
      refine ⟨j, ⟨by omega, ?_, hbefore.mp hlook, (hafter j).mp hstop⟩, ⟨by omega, by omega⟩, rfl⟩
      exact (within_runLength p text i).mono (Nat.le_refl i) (by omega)
    · cases he
  · rintro ⟨j, hrun, ⟨hle, hge⟩, rfl⟩
    have hlength := hrun.stop_eq
    have hlt := hrun.lt
    refine ⟨_, Regex.mem_runs_look.mpr ⟨hbefore.mpr hrun.before, rfl⟩, List.mem_flatMap.mpr ⟨Cursor.at text j, ?_,
      Regex.mem_runs_look.mpr ⟨(hafter j).mpr hrun.after, rfl⟩⟩⟩
    rw [rep_char_runs, if_pos (by omega), Option.getD_some]
    exact mem_backTo.mpr ⟨j, by omega, by omega, rfl⟩

theorem Regex.TakesRuns.match?_iff {lengths : Nat → Prop} {r : Regex α} (hr : r.TakesRuns p lengths) {m : Match} :
    r.match? (Cursor.at text i) = some m ↔
      m.start = i ∧ WholeRun p text i m.stop ∧ lengths (m.stop - i) ∧ m.group = none := by
  rw [Regex.match?, Option.map_eq_some_iff]
  constructor
  · rintro ⟨d, hd, rfl⟩
    obtain ⟨j, hrun, hlength, rfl⟩ := (hr text i d).mp (List.mem_of_mem_head? hd)
    exact ⟨rfl, hrun, hlength, rfl⟩
  · rintro ⟨rfl, hrun, hlength, hgroup⟩
    obtain ⟨start, stop, group⟩ := m
    have hmem := (hr text start _).mpr ⟨stop, hrun, hlength, rfl⟩
    obtain ⟨d, l, hruns⟩ := List.exists_cons_of_ne_nil (List.ne_nil_of_mem hmem)
    obtain ⟨j, hrun', -, rfl⟩ := (hr text start d).mp (hruns ▸ List.mem_cons_self)
    obtain rfl := hrun.unique hrun'
    obtain rfl : group = none := hgroup
    exact ⟨_, by rw [hruns]; rfl, rfl⟩

/-- The scan reports every whole run of the right length. -/
theorem Regex.TakesRuns.mem_finditer {lengths : Nat → Prop} {r : Regex α} (hr : r.TakesRuns p lengths) {m : Match} :
    m ∈ r.finditer text ↔ WholeRun p text m.start m.stop ∧ lengths (m.stop - m.start) ∧ m.group = none := by
  constructor
  · intro hm
    exact (hr.match?_iff.mp (Regex.mem_finditer.mp hm).2).2
  · rintro ⟨hrun, hlength, hgroup⟩
    have hmatch := hr.match?_iff.mpr ⟨rfl, hrun, hlength, hgroup⟩
    rcases Regex.reaches_or_crosses (r := r) (Nat.le_trans (Nat.le_of_lt hrun.lt) hrun.stop_le) with hreach | hcross
    · exact Regex.mem_finditer.mpr ⟨hreach, hmatch⟩
    · obtain ⟨m', hm', hstart, hstop⟩ := hcross
      have hrun' := (hr.match?_iff.mp (Regex.mem_finditer.mp hm').2).2.1
      exact absurd (hrun.not_inside hrun' hstart) (Nat.not_le.mpr hstop)

end Backtrack
