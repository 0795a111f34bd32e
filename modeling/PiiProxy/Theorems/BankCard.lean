import PiiProxy.Detection.RegexDetector

/-! # Which card numbers the detector finds

The card pattern takes the longest run of 13 to 19 digits that starts where the scan stands, and the scan goes on
behind it. The Luhn check comes afterwards. So a card number is found exactly if it lies in a run that this reading
takes and that passes the check as a whole. -/

namespace PiiProxy.BankCard
open Backtrack Regex Patterns

/-! ### Runs of digits -/

/-- `n` digits, with at most one separator between neighbours. -/
inductive Spaced : Nat → Str → Prop
  | last {x : Char} : isdecimal x = true → Spaced 1 [x]
  | digit {n : Nat} {x : Char} {w : Str} : isdecimal x = true → Spaced n w → Spaced (n + 1) (x :: w)
  | separated {n : Nat} {x y : Char} {w : Str} : isdecimal x = true → sepChar y = true → Spaced n w →
      Spaced (n + 1) (x :: y :: w)

/-- A run of 13 to 19 digits stands at `[p, q)`, with no digit right before it or after it. -/
structure Run (text : Str) (p q : Nat) : Prop where
  stop_le : q ≤ text.length
  digits : ∃ n, 13 ≤ n ∧ n ≤ 19 ∧ Spaced n (slice text p q)
  before : p ≠ 0 → ∀ x, text[p - 1]? = some x → isdecimal x = false
  after : ∀ x, text[q]? = some x → isdecimal x = false

/-- The longest run that starts at `p`. -/
def Longest (text : Str) (p q : Nat) : Prop := Run text p q ∧ ∀ q', Run text p q' → q' ≤ q

/-- Where a reading from left to right looks for the start of a run: it goes over the longest run that starts
    where it stands, or over one character. -/
inductive Reads (text : Str) : Nat → Prop
  | start : Reads text 0
  | char {p : Nat} : Reads text p → p < text.length → (∀ q, ¬ Run text p q) → Reads text (p + 1)
  | run {p q : Nat} : Reads text p → Longest text p q → Reads text q

theorem not_sepChar {x : Char} (h : isdecimal x = true) : sepChar x = false := by
  rw [sepChar, Bool.or_eq_false_iff]
  constructor
  · rw [← Bool.not_eq_true]
    intro hspace
    rw [isdecimal_of_isspace hspace] at h
    cases h
  · rw [beq_eq_false_iff_ne]
    rintro rfl
    exact absurd h (by decide)

theorem Spaced.pos {n : Nat} {w : Str} (h : Spaced n w) : 0 < n := by
  cases h with
  | last => exact Nat.one_pos
  | digit => exact Nat.succ_pos _
  | separated => exact Nat.succ_pos _

theorem Spaced.head {n : Nat} {w : Str} (h : Spaced n w) : ∃ x w', w = x :: w' ∧ isdecimal x = true := by
  cases h with
  | last hx => exact ⟨_, _, rfl, hx⟩
  | digit hx => exact ⟨_, _, rfl, hx⟩
  | separated hx => exact ⟨_, _, rfl, hx⟩

theorem Spaced.length_digits {n : Nat} {w : Str} (h : Spaced n w) : (w.filter isdecimal).length = n := by
  induction h with
  | last hx => simp [hx]
  | digit hx _ ih => simp [hx, ih]
  | @separated n x y w hx hy _ ih =>
    have hy' : isdecimal y = false := by
      rw [← Bool.not_eq_true]
      intro h
      rw [not_sepChar h] at hy
      cases hy
    simp [hx, hy', ih]

theorem spaced_of_digits {w : Str} (hw : w ≠ []) (h : ∀ x ∈ w, isdecimal x = true) : Spaced w.length w := by
  induction w with
  | nil => exact absurd rfl hw
  | cons x w ih =>
    cases w with
    | nil => exact .last (h x List.mem_cons_self)
    | cons y w => exact .digit (h x List.mem_cons_self) (ih (List.cons_ne_nil y w) fun z hz => h z (.tail x hz))

/-- Of two runs with the same start, the one with more digits is longer. -/
theorem Spaced.length_lt {n n' : Nat} {w w' l : Str} (h : Spaced n w) (h' : Spaced n' w') (hw : w <+: l)
    (hw' : w' <+: l) (hlt : n < n') : w.length < w'.length := by
  by_contra hge
  have hpre : w' <+: w := List.prefix_of_prefix_length_le hw' hw (Nat.not_lt.mp hge)
  have hle := (hpre.sublist.filter isdecimal).length_le
  rw [h.length_digits, h'.length_digits] at hle
  omega

/-! ### Following the pattern along a text -/

def skipSep : Str → Str
  | y :: l => if sepChar y then l else y :: l
  | [] => []

/-- What is left of a text after `k` digits, each with the separator that follows it. -/
def units : Nat → Str → Option Str
  | 0, l => some l
  | _ + 1, [] => none
  | k + 1, x :: l => if isdecimal x then units k (skipSep l) else none

/-- `k + 1` digits stand at the start of `x :: r` after `k` units, the last of them `x`. -/
theorem spaced_iff {k : Nat} {l r : Str} :
    (∃ w, l = w ++ r ∧ Spaced (k + 1) w) ↔ ∃ x, units k l = some (x :: r) ∧ isdecimal x = true := by
  induction k generalizing l with
  | zero =>
    constructor
    · rintro ⟨w, rfl, h⟩
      cases h with
      | last hx => exact ⟨_, rfl, hx⟩
      | digit _ h => exact absurd h.pos (Nat.lt_irrefl 0)
      | separated _ _ h => exact absurd h.pos (Nat.lt_irrefl 0)
    · rintro ⟨x, h, hx⟩
      obtain rfl := Option.some.inj h
      exact ⟨[x], rfl, .last hx⟩
  | succ k ih =>
    constructor
    · rintro ⟨w, rfl, h⟩
      cases h with
      | digit hx h =>
        obtain ⟨y, w', rfl, hy⟩ := h.head
        obtain ⟨z, hz, hdigit⟩ := ih.mp ⟨_, rfl, h⟩
        refine ⟨z, ?_, hdigit⟩
        simp only [List.cons_append, units, hx, if_true, skipSep, not_sepChar hy, Bool.false_eq_true, if_false]
        exact hz
      | separated hx hy h =>
        obtain ⟨z, hz, hdigit⟩ := ih.mp ⟨_, rfl, h⟩
        refine ⟨z, ?_, hdigit⟩
        simp only [List.cons_append, units, hx, if_true, skipSep, hy]
        exact hz
    · rintro ⟨z, h, hz⟩
      cases l with
      | nil => cases h
      | cons x l =>
        simp only [units] at h
        split at h
        · rename_i hx
          obtain ⟨w, hw, hspaced⟩ := ih.mpr ⟨z, h, hz⟩
          cases l with
          | nil =>
            obtain ⟨y, w', rfl, -⟩ := hspaced.head
            cases hw
          | cons y l =>
            simp only [skipSep] at hw
            split at hw
            · rename_i hy
              exact ⟨x :: y :: w, by rw [hw]; rfl, .separated hx hy hspaced⟩
            · exact ⟨x :: w, by rw [hw]; rfl, .digit hx hspaced⟩
        · cases h

/-! ### The results of the pattern, in the order in which the engine tries them -/

/-- `\d[\s\-]?` -/
def unit : Pattern := .seq digit sep

/-- `\d(?!\d)` -/
def ending : Pattern := .seq digit notBeforeDigit

/-- The cursor after a digit and the separator that follows it. -/
def next (c : Cursor Char) : Option (Cursor Char) :=
  match c.rest with
  | [] => none
  | [x] => if isdecimal x then some { c with pos := c.pos + 1, before := some x, rest := [] } else none
  | x :: y :: rest =>
    if !isdecimal x then none
    else if sepChar y then some { c with pos := c.pos + 2, before := some y, rest }
    else some { c with pos := c.pos + 1, before := some x, rest := y :: rest }

/-- `k` units, each of which takes the separator that it finds. -/
def follow : Nat → Cursor Char → Option (Cursor Char)
  | 0, c => some c
  | k + 1, c => (next c).bind (follow k)

theorem follow_rest (k : Nat) (c : Cursor Char) : (follow k c).map (·.rest) = units k c.rest := by
  induction k generalizing c with
  | zero => rfl
  | succ k ih =>
    obtain ⟨pos, before, rest, group⟩ := c
    rw [follow]
    cases rest with
    | nil => rfl
    | cons x rest =>
      cases hx : isdecimal x with
      | false => cases rest <;> simp [next, units, hx]
      | true =>
        cases rest with
        | nil => simp [next, units, hx, ih, skipSep]
        | cons y rest =>
          by_cases hy : sepChar y = true
          · simp [next, units, hx, hy, ih, skipSep]
          · simp [next, units, hx, hy, ih, skipSep]

/-- The ways to match a unit: with the separator that follows the digit first. -/
theorem unit_runs (c : Cursor Char) :
    unit.runs c = [] ∧ next c = none ∨
      (∃ d, unit.runs c = [d] ∧ next c = some d ∧ c.pos < d.pos) ∨
      ∃ d e, unit.runs c = [d, e] ∧ next c = some d ∧ c.pos < d.pos ∧ c.pos < e.pos ∧
        ∃ y, e.rest.head? = some y ∧ sepChar y = true := by
  obtain ⟨pos, before, rest, group⟩ := c
  cases rest with
  | nil => exact Or.inl ⟨rfl, rfl⟩
  | cons x rest =>
    cases hx : isdecimal x with
    | false => exact Or.inl ⟨by simp [unit, Regex.runs, digit, hx], by cases rest <;> simp [next, hx]⟩
    | true =>
      cases rest with
      | nil =>
        refine Or.inr (Or.inl ⟨⟨pos + 1, some x, [], group⟩, ?_, ?_, Nat.lt_succ_self pos⟩)
        · simp [unit, Regex.runs, digit, hx, sep, opt, required, Backtrack.optional]
        · simp [next, hx]
      | cons y rest =>
        cases hy : sepChar y with
        | false =>
          refine Or.inr (Or.inl ⟨⟨pos + 1, some x, y :: rest, group⟩, ?_, ?_, Nat.lt_succ_self pos⟩)
          · simp [unit, Regex.runs, digit, hx, sep, opt, required, Backtrack.optional, hy]
          · simp [next, hx, hy]
        | true =>
          refine Or.inr (Or.inr ⟨⟨pos + 2, some y, rest, group⟩, ⟨pos + 1, some x, y :: rest, group⟩, ?_, ?_,
            Nat.lt_add_of_pos_right (Nat.succ_pos 1), Nat.lt_succ_self pos, y, rfl, hy⟩)
          · simp [unit, Regex.runs, digit, hx, sep, opt, required, Backtrack.optional, hy]
          · simp [next, hx, hy]

theorem pos_lt_of_mem_unit_runs {c d : Cursor Char} (h : d ∈ unit.runs c) : c.pos < d.pos := by
  rcases unit_runs c with ⟨hruns, -⟩ | ⟨d', hruns, -, hd⟩ | ⟨d', e, hruns, -, hd, he, -⟩
  · rw [hruns] at h
    cases h
  · rw [hruns] at h
    obtain rfl := List.mem_singleton.mp h
    exact hd
  · rw [hruns] at h
    rcases List.mem_cons.mp h with rfl | h
    · exact hd
    · obtain rfl := List.mem_singleton.mp h
      exact he

theorem mem_unit_runs_of_next {c d : Cursor Char} (h : next c = some d) : d ∈ unit.runs c := by
  rcases unit_runs c with ⟨-, hnext⟩ | ⟨d', hruns, hnext, -⟩ | ⟨d', e, hruns, hnext, -⟩
  · rw [hnext] at h
    cases h
  · obtain rfl := Option.some.inj (hnext.symm.trans h)
    simp [hruns]
  · obtain rfl := Option.some.inj (hnext.symm.trans h)
    simp [hruns]

/-- A unit in front of something that starts with a digit takes the separator, if there is one. -/
theorem unit_flatMap {k : Cursor Char → List (Cursor Char)}
    (hk : ∀ d, (∀ x, d.rest.head? = some x → isdecimal x = false) → k d = []) (c : Cursor Char) :
    (unit.runs c).flatMap k = (next c).toList.flatMap k := by
  rcases unit_runs c with ⟨hruns, hnext⟩ | ⟨d, hruns, hnext, -⟩ | ⟨d, e, hruns, hnext, -, -, y, hy, hsep⟩
  · rw [hruns, hnext]
    rfl
  · rw [hruns, hnext]
    rfl
  · have hnone : k e = [] := by
      refine hk e fun x hx => ?_
      obtain rfl := Option.some.inj (hy.symm.trans hx)
      rw [← Bool.not_eq_true]
      intro hdec
      rw [not_sepChar hdec] at hsep
      cases hsep
    rw [hruns, hnext]
    simp [hnone]

/-- No digit stands at the cursor. -/
def NoDigit (c : Cursor Char) : Prop := ∀ x, c.rest.head? = some x → isdecimal x = false

theorem unit_runs_of_noDigit {c : Cursor Char} (h : NoDigit c) : unit.runs c = [] := by
  obtain ⟨pos, before, rest, group⟩ := c
  cases rest with
  | nil => rfl
  | cons x rest => simp [unit, Regex.runs, digit, h x rfl]

theorem ending_runs (c : Cursor Char) :
    ending.runs c = [] ∨ ∃ x d, c.rest = x :: d.rest ∧ isdecimal x = true ∧ ending.runs c = [d] ∧ NoDigit d := by
  obtain ⟨pos, before, rest, group⟩ := c
  cases rest with
  | nil => exact Or.inl rfl
  | cons x rest =>
    cases hx : isdecimal x with
    | false => exact Or.inl (by simp [ending, Regex.runs, digit, hx])
    | true =>
      cases hr : rest.head?.any isdecimal with
      | true => exact Or.inl (by simp [ending, Regex.runs, digit, notBeforeDigit, hx, hr])
      | false =>
        refine Or.inr ⟨x, ⟨pos + 1, some x, rest, group⟩, rfl, hx, ?_, ?_⟩
        · simp [ending, Regex.runs, digit, notBeforeDigit, hx, hr]
        · intro y hy
          rw [show rest.head? = some y from hy, Option.any_some] at hr
          exact hr

theorem ending_runs_of_noDigit {c : Cursor Char} (h : NoDigit c) : ending.runs c = [] := by
  rcases ending_runs c with hnil | ⟨x, d, hrest, hx, -⟩
  · exact hnil
  · rw [h x (by rw [hrest]; rfl)] at hx
    cases hx

/-- At most `m` further units, and the last digit. -/
def further (m : Nat) (c : Cursor Char) : List (Cursor Char) :=
  (Backtrack.optional unit.runs true m c).flatMap ending.runs

theorem further_of_noDigit {c : Cursor Char} (h : NoDigit c) (m : Nat) : further m c = [] := by
  cases m with
  | zero => simp [further, Backtrack.optional, ending_runs_of_noDigit h]
  | succ m => simp [further, Backtrack.optional, unit_runs_of_noDigit h, ending_runs_of_noDigit h]

theorem further_succ (m : Nat) (c : Cursor Char) :
    further (m + 1) c = (next c).toList.flatMap (further m) ++ ending.runs c := by
  have hfilter : ((unit.runs c).filter fun d => c.pos < d.pos) = unit.runs c :=
    List.filter_eq_self.mpr fun d hd => decide_eq_true (pos_lt_of_mem_unit_runs hd)
  have hunit := unit_flatMap (k := further m) (fun d hd => further_of_noDigit hd m) c
  rw [← hunit, further]
  simp only [Backtrack.optional, hfilter, if_true, List.flatMap_append, List.flatMap_assoc, List.flatMap_singleton]
  rfl

theorem required_flatMap (n m : Nat) (c : Cursor Char) :
    (required unit.runs n c).flatMap (further m) = (follow n c).toList.flatMap (further m) := by
  induction n generalizing c with
  | zero => rfl
  | succ n ih =>
    have hk : ∀ d, NoDigit d → (required unit.runs n d).flatMap (further m) = [] := by
      intro d hd
      cases n with
      | zero => simp [required, further_of_noDigit hd]
      | succ n => simp [required, unit_runs_of_noDigit hd]
    rw [required, List.flatMap_assoc, unit_flatMap hk, follow]
    cases next c with
    | none => rfl
    | some d =>
      simp only [Option.toList_some, List.flatMap_singleton, Option.bind_some]
      exact ih d

theorem bankCard_runs (c : Cursor Char) :
    bankCard.runs c = if c.before.any isdecimal then [] else (follow 12 c).toList.flatMap (further 6) := by
  have hrep : (Regex.seq (between 12 18 unit) ending).runs c = (follow 12 c).toList.flatMap (further 6) := by
    rw [← required_flatMap]
    simp only [Regex.runs, between, List.flatMap_assoc]
    rfl
  show (notAfterDigit.runs c).flatMap (Regex.seq (between 12 18 unit) ending).runs = _
  cases hb : c.before.any isdecimal with
  | true => simp [notAfterDigit, Regex.runs, hb]
  | false => simp [notAfterDigit, Regex.runs, hb, ← hrep]

/-! ### The match at a position is the longest run -/

/-- After `k` units the last digit ends the match at `d`. -/
def Stops (c : Cursor Char) (k : Nat) (d : Cursor Char) : Prop := ∃ e, follow k c = some e ∧ ending.runs e = [d]

theorem Stops.unique {c d d' : Cursor Char} {k : Nat} (h : Stops c k d) (h' : Stops c k d') : d = d' := by
  obtain ⟨e, he, hd⟩ := h
  obtain ⟨e', he', hd'⟩ := h'
  obtain rfl := Option.some.inj (he.symm.trans he')
  exact List.singleton_inj.mp (hd.symm.trans hd')

theorem stops_succ {c d : Cursor Char} {k : Nat} : Stops c (k + 1) d ↔ ∃ e, next c = some e ∧ Stops e k d := by
  simp only [Stops, follow, Option.bind_eq_some_iff]
  constructor
  · rintro ⟨e, ⟨e', he', he⟩, hd⟩
    exact ⟨e', he', e, he, hd⟩
  · rintro ⟨e', he', e, he, hd⟩
    exact ⟨e, ⟨e', he', he⟩, hd⟩

theorem follow_add (n k : Nat) (c : Cursor Char) : follow (n + k) c = (follow n c).bind (follow k) := by
  induction n generalizing c with
  | zero => rw [Nat.zero_add]; rfl
  | succ n ih =>
    rw [Nat.succ_add, follow, follow]
    cases next c with
    | none => rfl
    | some d => exact ih d

theorem stops_of_further_nil {m : Nat} {c : Cursor Char} (h : further m c = []) :
    ∀ j, j ≤ m → ∀ d, ¬ Stops c j d := by
  have hzero : ∀ {c : Cursor Char}, ending.runs c = [] → ∀ d, ¬ Stops c 0 d := by
    rintro c hnil d ⟨e, he, hd⟩
    obtain rfl := Option.some.inj he
    rw [hnil] at hd
    cases hd
  induction m generalizing c with
  | zero =>
    intro j hj
    obtain rfl := Nat.le_zero.mp hj
    exact hzero (by simpa [further, Backtrack.optional] using h)
  | succ m ih =>
    rw [further_succ, List.append_eq_nil_iff] at h
    intro j hj d hd
    cases j with
    | zero => exact hzero h.2 d hd
    | succ j =>
      obtain ⟨e, he, hstops⟩ := stops_succ.mp hd
      have hmore : further m e = [] := by simpa [he] using h.1
      exact ih hmore j (Nat.le_of_succ_le_succ hj) d hstops

/-- The first result of `further` takes as many units as it can. -/
theorem further_head {m : Nat} {c d : Cursor Char} (h : (further m c).head? = some d) :
    ∃ j, j ≤ m ∧ Stops c j d ∧ ∀ j', j < j' → j' ≤ m → ∀ d', ¬ Stops c j' d' := by
  induction m generalizing c with
  | zero =>
    have hend : (ending.runs c).head? = some d := by simpa [further, Backtrack.optional] using h
    rcases ending_runs c with hnil | ⟨x, d', -, -, hruns, -⟩
    · rw [hnil] at hend
      cases hend
    · rw [hruns] at hend
      obtain rfl := Option.some.inj hend
      exact ⟨0, Nat.le_refl 0, ⟨c, rfl, hruns⟩, fun j' hlt hle => absurd hle (Nat.not_le.mpr hlt)⟩
  | succ m ih =>
    rw [further_succ] at h
    cases hmore : (next c).toList.flatMap (further m) with
    | cons d' l =>
      rw [hmore] at h
      cases hnext : next c with
      | none =>
        rw [hnext] at hmore
        cases hmore
      | some e =>
        rw [hnext, Option.toList_some, List.flatMap_singleton] at hmore
        have hhead : (further m e).head? = some d := by rw [hmore]; exact h
        obtain ⟨j, hj, hstops, hmax⟩ := ih hhead
        refine ⟨j + 1, Nat.succ_le_succ hj, stops_succ.mpr ⟨e, hnext, hstops⟩, fun j' hlt hle d'' hd'' => ?_⟩
        obtain ⟨i, rfl⟩ := Nat.exists_eq_succ_of_ne_zero (Nat.ne_of_gt (Nat.lt_of_le_of_lt (Nat.zero_le _) hlt))
        obtain ⟨e', he', hstops'⟩ := stops_succ.mp hd''
        obtain rfl := Option.some.inj (hnext.symm.trans he')
        exact hmax i (Nat.lt_of_succ_lt_succ hlt) (Nat.le_of_succ_le_succ hle) d'' hstops'
    | nil =>
      rw [hmore, List.nil_append] at h
      have hnone : ∀ j', 0 < j' → j' ≤ m + 1 → ∀ d', ¬ Stops c j' d' := by
        intro j' hlt hle d' hd'
        obtain ⟨i, rfl⟩ := Nat.exists_eq_succ_of_ne_zero (Nat.ne_of_gt hlt)
        obtain ⟨e, he, hstops⟩ := stops_succ.mp hd'
        rw [he, Option.toList_some, List.flatMap_singleton] at hmore
        exact stops_of_further_nil hmore i (Nat.le_of_succ_le_succ hle) d' hstops
      rcases ending_runs c with hnil | ⟨x, d', -, -, hruns, -⟩
      · rw [hnil] at h
        cases h
      · rw [hruns] at h
        obtain rfl := Option.some.inj h
        exact ⟨0, Nat.zero_le _, ⟨c, rfl, hruns⟩, hnone⟩

/-! ### The match in a text -/

theorem ending_runs_of_digit {c : Cursor Char} {x : Char} {r : Str} (hrest : c.rest = x :: r) (hx : isdecimal x = true)
    (hr : ∀ y, r.head? = some y → isdecimal y = false) : ∃ d, ending.runs c = [d] ∧ d.rest = r := by
  obtain ⟨pos, before, rest, group⟩ := c
  obtain rfl : rest = x :: r := hrest
  refine ⟨⟨pos + 1, some x, r, group⟩, ?_, rfl⟩
  have hnone : r.head?.any isdecimal = false := by
    cases hh : r.head? with
    | none => rfl
    | some y => exact hr y hh
  simp [ending, Regex.runs, digit, notBeforeDigit, hx, hnone]

theorem mem_required_of_follow {k : Nat} {c e : Cursor Char} (h : follow k c = some e) :
    e ∈ required unit.runs k c := by
  induction k generalizing c with
  | zero =>
    obtain rfl := Option.some.inj h
    exact List.mem_singleton.mpr rfl
  | succ k ih =>
    obtain ⟨d, hd, he⟩ := Option.bind_eq_some_iff.mp h
    exact List.mem_flatMap.mpr ⟨d, mem_unit_runs_of_next hd, ih he⟩

section
variable {text : Str} {p q k : Nat}

theorem Stops.on {c d : Cursor Char} (hc : c.On text) (h : Stops c k d) : d.On text ∧ c.pos ≤ d.pos := by
  obtain ⟨e, he, hd⟩ := h
  obtain ⟨hon, hle⟩ := unit.runs_forward.required k c hc e (mem_required_of_follow he)
  obtain ⟨hon', hle'⟩ := ending.runs_forward e hon d (by rw [hd]; exact List.mem_singleton_self d)
  exact ⟨hon', Nat.le_trans hle hle'⟩

theorem slice_append_drop (hpq : p ≤ q) : slice text p q ++ text.drop q = text.drop p := by
  rw [slice, show q = p + (q - p) by omega, ← List.drop_drop, Nat.add_sub_cancel_left, List.take_append_drop]

theorem slice_eq_of_append {w : Str} (hpq : p ≤ q) (h : text.drop p = w ++ text.drop q) :
    slice text p q = w :=
  List.append_cancel_right ((slice_append_drop hpq).trans h)

theorem noDigit_at {d : Cursor Char} (hd : d.On text) :
    NoDigit d ↔ ∀ x, text[d.pos]? = some x → isdecimal x = false := by
  rw [NoDigit, hd.rest, List.head?_drop]

/-- The pattern can stop at `q` after `k` units and a last digit exactly if `k + 1` digits end there. -/
theorem stops_iff (hp : p ≤ text.length) :
    (∃ d, Stops (Cursor.at text p) k d ∧ d.pos = q) ↔
      q ≤ text.length ∧ Spaced (k + 1) (slice text p q) ∧ ∀ x, text[q]? = some x → isdecimal x = false := by
  constructor
  · rintro ⟨d, hstops, rfl⟩
    obtain ⟨hon, hle⟩ := hstops.on (Cursor.on_at hp)
    obtain ⟨e, he, hd⟩ := hstops
    rcases ending_runs e with hnil | ⟨x, d', hrest, hx, hruns, hno⟩
    · rw [hnil] at hd
      cases hd
    · obtain rfl := List.singleton_inj.mp (hruns.symm.trans hd)
      have hunits : units k (text.drop p) = some (x :: d'.rest) := by
        rw [← hrest]
        exact (follow_rest k (Cursor.at text p)).symm.trans (congrArg (Option.map _) he)
      obtain ⟨w, hw, hspaced⟩ := spaced_iff.mpr ⟨x, hunits, hx⟩
      rw [hon.rest] at hw
      have hslice : slice text p d'.pos = w := slice_eq_of_append hle hw
      rw [hslice]
      exact ⟨hon.1, hspaced, (noDigit_at hon).mp hno⟩
  · rintro ⟨hq, hspaced, hafter⟩
    have hpq : p ≤ q := by
      by_contra hlt
      obtain ⟨x, w, hw, -⟩ := hspaced.head
      rw [slice, Nat.sub_eq_zero_of_le (Nat.le_of_not_le hlt), List.take_zero] at hw
      cases hw
    have hdrop : text.drop p = slice text p q ++ text.drop q := (slice_append_drop hpq).symm
    obtain ⟨x, hunits, hx⟩ := spaced_iff.mp ⟨_, hdrop, hspaced⟩
    obtain ⟨e, he, hrest⟩ : ∃ e, follow k (Cursor.at text p) = some e ∧ e.rest = x :: text.drop q :=
      Option.map_eq_some_iff.mp ((follow_rest k (Cursor.at text p)).trans hunits)
    obtain ⟨d, hd, hdrest⟩ := ending_runs_of_digit hrest hx (by rw [List.head?_drop]; exact hafter)
    have hstops : Stops (Cursor.at text p) k d := ⟨e, he, hd⟩
    obtain ⟨hon, hle⟩ := hstops.on (Cursor.on_at hp)
    have hlen := congrArg List.length (hdrest.symm.trans hon.rest)
    simp only [List.length_drop] at hlen
    have := hon.1
    exact ⟨d, hstops, by omega⟩

theorem before_any :
    (Cursor.at text p).before.any isdecimal = false ↔ (p ≠ 0 → ∀ x, text[p - 1]? = some x → isdecimal x = false) := by
  by_cases hzero : p = 0
  · simp [Cursor.at, hzero]
  · simp [Cursor.at, hzero, Option.any_eq_false]

/-- A run is a place at which the pattern can stop after 12 to 18 units. -/
theorem run_iff (hp : p ≤ text.length) :
    Run text p q ↔ (Cursor.at text p).before.any isdecimal = false ∧
      ∃ j, j ≤ 6 ∧ ∃ d, Stops (Cursor.at text p) (12 + j) d ∧ d.pos = q := by
  rw [before_any]
  constructor
  · rintro ⟨hq, ⟨n, hmin, hmax, hspaced⟩, hbefore, hafter⟩
    refine ⟨hbefore, n - 13, by omega, (stops_iff hp).mpr ⟨hq, ?_, hafter⟩⟩
    rwa [show 12 + (n - 13) + 1 = n by omega]
  · rintro ⟨hbefore, j, hj, hd⟩
    obtain ⟨hq, hspaced, hafter⟩ := (stops_iff hp).mp hd
    exact ⟨hq, ⟨_, by omega, by omega, hspaced⟩, hbefore, hafter⟩

theorem Run.lt (h : Run text p q) : p < q := by
  obtain ⟨n, -, -, hspaced⟩ := h.digits
  obtain ⟨x, w, hw, -⟩ := hspaced.head
  by_contra hlt
  rw [slice, Nat.sub_eq_zero_of_le (Nat.le_of_not_lt hlt), List.take_zero] at hw
  cases hw

theorem Stops.lt {j j' : Nat} {d d' : Cursor Char} (hp : p ≤ text.length) (h : Stops (Cursor.at text p) j d)
    (h' : Stops (Cursor.at text p) j' d') (hlt : j < j') : d.pos < d'.pos := by
  obtain ⟨hq, hspaced, -⟩ := (stops_iff hp).mp ⟨d, h, rfl⟩
  obtain ⟨hq', hspaced', -⟩ := (stops_iff hp).mp ⟨d', h', rfl⟩
  have hlength := hspaced.length_lt hspaced' (List.take_prefix _ (text.drop p)) (List.take_prefix _ (text.drop p))
    (Nat.succ_lt_succ hlt)
  rw [length_slice hq, length_slice hq'] at hlength
  omega

theorem stops_add {n j : Nat} {c e d : Cursor Char} (he : follow n c = some e) : Stops c (n + j) d ↔ Stops e j d := by
  rw [Stops, follow_add, he]
  rfl

/-- The pattern matches the longest run. -/
theorem match?_eq_some {m : Match} (hp : p ≤ text.length) (h : bankCard.match? (Cursor.at text p) = some m) :
    m.start = p ∧ Longest text p m.stop := by
  simp only [Regex.match?, Option.map_eq_some_iff] at h
  obtain ⟨d, hhead, rfl⟩ := h
  refine ⟨rfl, ?_⟩
  rw [bankCard_runs] at hhead
  split at hhead
  · cases hhead
  · rename_i hbefore
    cases he : follow 12 (Cursor.at text p) with
    | none =>
      rw [he] at hhead
      cases hhead
    | some e =>
      rw [he, Option.toList_some, List.flatMap_singleton] at hhead
      obtain ⟨j, hj, hstops, hmax⟩ := further_head hhead
      have hstops' := (stops_add (n := 12) he).mpr hstops
      refine ⟨(run_iff hp).mpr ⟨Bool.eq_false_iff.mpr hbefore, j, hj, d, hstops', rfl⟩, fun q' hrun => ?_⟩
      obtain ⟨-, j', hj', d', hd', rfl⟩ := (run_iff hp).mp hrun
      rcases Nat.lt_trichotomy j' j with hlt | rfl | hlt
      · exact Nat.le_of_lt (Stops.lt hp hd' hstops' (Nat.add_lt_add_left hlt 12))
      · exact Nat.le_of_eq (congrArg Cursor.pos (hd'.unique hstops'))
      · exact absurd ((stops_add he).mp hd') (hmax j' hlt hj' d')

/-- Where the pattern does not match there is no run. -/
theorem match?_eq_none (hp : p ≤ text.length) (h : bankCard.match? (Cursor.at text p) = none) : ∀ q, ¬ Run text p q := by
  intro q hrun
  obtain ⟨hbefore, j, hj, d, hd, -⟩ := (run_iff hp).mp hrun
  simp only [Regex.match?, Option.map_eq_none_iff, List.head?_eq_none_iff, bankCard_runs, hbefore,
    Bool.false_eq_true, if_false] at h
  obtain ⟨e, he, hrest⟩ : ∃ e, follow 12 (Cursor.at text p) = some e ∧ Stops e j d := by
    obtain ⟨e', he', hruns⟩ := hd
    rw [follow_add] at he'
    obtain ⟨e, he, hej⟩ := Option.bind_eq_some_iff.mp he'
    exact ⟨e, he, e', hej, hruns⟩
  rw [he, Option.toList_some, List.flatMap_singleton] at h
  exact stops_of_further_nil h j hj d hrest

theorem Longest.unique {q' : Nat} (h : Longest text p q) (h' : Longest text p q') : q = q' :=
  Nat.le_antisymm (h'.2 q h.1) (h.2 q' h'.1)

/-- The scan goes on exactly where the reading does. -/
theorem reaches_iff_reads : bankCard.Reaches text 0 p ↔ Reads text p := by
  constructor
  · intro h
    induction h with
    | refl => exact .start
    | tail _ hnext ih =>
      obtain ⟨hlt, hstep⟩ := hnext
      split at hstep
      · rename_i hnone
        subst hstep
        exact ih.char hlt (match?_eq_none (Nat.le_of_lt hlt) hnone)
      · rename_i m hm
        obtain ⟨-, hlongest⟩ := match?_eq_some (Nat.le_of_lt hlt) hm
        rw [Nat.max_eq_left hlongest.1.lt] at hstep
        subst hstep
        exact ih.run hlongest
  · intro h
    induction h with
    | start => exact .refl
    | @char p _ hlt hno ih =>
      refine ih.tail ⟨hlt, ?_⟩
      cases hm : bankCard.match? (Cursor.at text p) with
      | none => rfl
      | some m => exact absurd (match?_eq_some (Nat.le_of_lt hlt) hm).2.1 (hno m.stop)
    | @run p q _ hlongest ih =>
      have hlt : p < text.length := Nat.lt_of_lt_of_le hlongest.1.lt hlongest.1.stop_le
      refine ih.tail ⟨hlt, ?_⟩
      cases hm : bankCard.match? (Cursor.at text p) with
      | none => exact absurd hlongest.1 (match?_eq_none (Nat.le_of_lt hlt) hm q)
      | some m =>
        have hm' := (match?_eq_some (Nat.le_of_lt hlt) hm).2
        obtain rfl := hlongest.unique hm'
        exact (Nat.max_eq_left hlongest.1.lt).symm

end

/-! ### What the detector finds -/

section
variable {today : Date} {text : Str}

/-- A bank card number stands at `[i, j)`: 13 to 19 ASCII digits with single separators between them, that pass the
    Luhn check, with no digit right before them or after them. -/
structure IsCard (text : Str) (i j : Nat) : Prop where
  run : Run text i j
  ascii : ∀ x ∈ slice text i j, isdecimal x = true → Patterns.asciiDigit x = true
  luhn : luhn (slice text i j) = some true

/-- `detect` returns a bank card whose span contains `[i, j)`. -/
def Finds (today : Date) (text : Str) (i j : Nat) : Prop :=
  ∃ entities, RegexDetector.detect today text = .ok entities ∧
    ∃ e ∈ entities, e.type = .bankCard ∧ e.start ≤ i ∧ (j : Int) ≤ e.stop

/-- The reading from left to right takes a run that contains `[i, j)` and passes the Luhn check as a whole. -/
def Taken (text : Str) (i j : Nat) : Prop :=
  ∃ p q, Reads text p ∧ Longest text p q ∧ p ≤ i ∧ j ≤ q ∧ PiiProxy.luhn (slice text p q) = some true

theorem entityOf_bankCard {m : Match} {e : PIIEntity} :
    RegexDetector.entityOf today text .bankCard m = .ok (some e) ↔
      PiiProxy.luhn (slice text m.start m.stop) = some true ∧
        e = ⟨.bankCard, slice text m.start m.stop, m.start, m.stop, 1, RegexDetector.name⟩ := by
  have hspan : RegexDetector.matchSpan text .bankCard m = .ok (slice text m.start m.stop, m.start, m.stop) := rfl
  have hkept : RegexDetector.dropped text .bankCard (slice text m.start m.stop) m.start m.stop = false := rfl
  have hcheck : validator today .bankCard = some PiiProxy.luhn := rfl
  simp only [RegexDetector.entityOf, hspan, bind, Except.bind, pure, Except.pure, hkept, hcheck, reduceCtorEq, false_and,
    if_false]
  cases hluhn : PiiProxy.luhn (slice text m.start m.stop) with
  | none => simp
  | some ok =>
    cases ok
    · simp
    · simp [eq_comm]

/-- The detector finds a card number exactly if the reading takes it in a run that passes the Luhn check. -/
theorem finds_iff_taken (today : Date) (text : Str) (i j : Nat) : Finds today text i j ↔ Taken text i j := by
  obtain ⟨entities, hdetect⟩ := RegexDetector.detect_isOk today text
  have hmem := RegexDetector.mem_detect hdetect
  constructor
  · rintro ⟨entities', hdetect', e, he, htype, hstart, hstop⟩
    obtain rfl := Except.ok.inj (hdetect.symm.trans hdetect')
    obtain ⟨type, pattern, hrule, m, hm, hentity⟩ := (hmem e).mp he
    obtain rfl : type = .bankCard := (RegexDetector.type_of_entityOf hentity).symm.trans htype
    obtain rfl : pattern = bankCard := by simpa [rules] using hrule
    obtain ⟨hluhn, rfl⟩ := entityOf_bankCard.mp hentity
    obtain ⟨hreaches, hmatch⟩ := Regex.mem_finditer.mp hm
    have hlongest := (match?_eq_some hreaches.le_length hmatch).2
    exact ⟨m.start, m.stop, reaches_iff_reads.mp hreaches, hlongest, Int.ofNat_le.mp hstart, Int.ofNat_le.mp hstop, hluhn⟩
  · rintro ⟨p, q, hreads, hlongest, hpi, hjq, hluhn⟩
    have hp : p ≤ text.length := Nat.le_trans (Nat.le_of_lt hlongest.1.lt) hlongest.1.stop_le
    cases hmatch : bankCard.match? (Cursor.at text p) with
    | none => exact absurd hlongest.1 (match?_eq_none hp hmatch q)
    | some m =>
      obtain ⟨rfl, hlongest'⟩ := match?_eq_some hp hmatch
      obtain rfl := hlongest.unique hlongest'
      have hm : m ∈ bankCard.finditer text := Regex.mem_finditer.mpr ⟨reaches_iff_reads.mpr hreads, hmatch⟩
      refine ⟨entities, hdetect, _, (hmem _).mpr ⟨.bankCard, bankCard, ?_, m, hm, entityOf_bankCard.mpr ⟨hluhn, rfl⟩⟩,
        rfl, Int.ofNat_le.mpr hpi, Int.ofNat_le.mpr hjq⟩
      simp [rules]

/-- The three digits behind a card number make a longer run, which fails the check. -/
theorem card_with_code_missed :
    IsCard "4111111111111111 123".toList 0 16 ∧ ¬ Finds ⟨2026, 1, 1⟩ "4111111111111111 123".toList 0 16 := by
  have hslice : slice "4111111111111111 123".toList 0 16 = "4111111111111111".toList := rfl
  have hdigits : ∀ x ∈ "4111111111111111".toList, (isdecimal x && Patterns.asciiDigit x) = true :=
    List.all_eq_true.mp (by decide +kernel)
  have hspaced : Spaced 16 "4111111111111111".toList :=
    spaced_of_digits (List.cons_ne_nil _ _) fun x hx => (Bool.and_eq_true_iff.mp (hdigits x hx)).1
  refine ⟨⟨⟨by decide, ⟨16, by decide, by decide, hslice ▸ hspaced⟩, fun h => absurd rfl h, ?_⟩, ?_, ?_⟩, ?_⟩
  · intro x hx
    obtain rfl := Option.some.inj hx
    rfl
  · rw [hslice]
    exact fun x hx _ => (Bool.and_eq_true_iff.mp (hdigits x hx)).2
  · rw [hslice]
    decide +kernel
  · rintro ⟨entities, hdetect, e, he, -⟩
    have hnone : RegexDetector.detect ⟨2026, 1, 1⟩ "4111111111111111 123".toList = .ok [] := by decide +kernel
    obtain rfl := Except.ok.inj (hnone.symm.trans hdetect)
    cases he

end

end PiiProxy.BankCard
