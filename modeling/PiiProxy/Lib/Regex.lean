import Mathlib.Data.List.Basic
import Mathlib.Logic.Relation

/-! Backtracking regular expressions. The meaning of an expression at a position is the list of the
    ways in which it matches there, in the order in which a backtracking engine tries them, so that the
    head of the list is the match that the engine reports. `finditer` is the left-to-right scan for
    matches that do not overlap. -/

namespace Backtrack

/-- Expressions over the alphabet `α`. A zero-width test sees the character before its position and all
    that follows; look-behind by one character, look-ahead and word boundaries are tests. -/
inductive Regex (α : Type) where
  | eps
  | char (p : α → Bool)
  | look (p : Option α → List α → Bool)
  | seq (r s : Regex α)
  | alt (r s : Regex α)
  /-- `least` copies of `r`, then at most `more` further copies (`none` for no bound). -/
  | rep (r : Regex α) (least : Nat) (more : Option Nat) (greedy : Bool)
  | group (r : Regex α)

/-- A position in a text: what stands before and after it, and the group captured on the way. -/
structure Cursor (α : Type) where
  pos : Nat
  before : Option α
  rest : List α
  group : Option (Nat × Nat)

structure Match where
  start : Nat
  stop : Nat
  group : Option (Nat × Nat)
  deriving DecidableEq, Repr

variable {α : Type}

/-- `n` copies of a step, each taken from every result of the copy before it. -/
def required (f : Cursor α → List (Cursor α)) : Nat → Cursor α → List (Cursor α)
  | 0, c => [c]
  | n + 1, c => (f c).flatMap (required f n)

/-- At most `n` copies of a step. A copy that takes no character is not repeated. -/
def optional (f : Cursor α → List (Cursor α)) (greedy : Bool) : Nat → Cursor α → List (Cursor α)
  | 0, c => [c]
  | n + 1, c =>
    let longer := ((f c).filter fun d => c.pos < d.pos).flatMap (optional f greedy n)
    if greedy then longer ++ [c] else c :: longer

/-- The cursors at which a match of the expression from `c` can end, best first. -/
def Regex.runs : Regex α → Cursor α → List (Cursor α)
  | .eps, c => [c]
  | .char p, c =>
    match c.rest with
    | [] => []
    | x :: rest => if p x then [{ c with pos := c.pos + 1, before := some x, rest }] else []
  | .look p, c => if p c.before c.rest then [c] else []
  | .seq r s, c => (r.runs c).flatMap s.runs
  | .alt r s, c => r.runs c ++ s.runs c
  | .rep r least more greedy, c =>
    (required r.runs least c).flatMap fun d => optional r.runs greedy (more.getD d.rest.length) d
  | .group r, c => (r.runs c).map fun d => { d with group := some (c.pos, d.pos) }

/-- The match that the engine reports at a position. -/
def Regex.match? (r : Regex α) (c : Cursor α) : Option Match :=
  (r.runs c).head?.map fun d => ⟨c.pos, d.pos, d.group⟩

/-- The scan from position `pos`, whose next `skip` characters belong to the last match. -/
def Regex.scan (r : Regex α) : Nat → Option α → Nat → List α → List Match
  | pos, before, 0, [] => (r.match? ⟨pos, before, [], none⟩).toList
  | _, _, _ + 1, [] => []
  | pos, _, skip + 1, x :: rest => r.scan (pos + 1) (some x) skip rest
  | pos, before, 0, x :: rest =>
    match r.match? ⟨pos, before, x :: rest, none⟩ with
    | none => r.scan (pos + 1) (some x) 0 rest
    | some m => m :: r.scan (pos + 1) (some x) (m.stop - (pos + 1)) rest

def Regex.finditer (r : Regex α) (text : List α) : List Match := r.scan 0 none 0 text

/-- The first match anywhere, of an expression that never matches the empty text. -/
def Regex.search (r : Regex α) (text : List α) : Option Match := (r.finditer text).head?

/-- Some match takes the whole text. -/
def Regex.fullmatch (r : Regex α) (text : List α) : Bool :=
  (r.runs ⟨0, none, text, none⟩).any fun d => d.rest.isEmpty

/-! ### Shorthands of the concrete syntax -/

/-- `r*`, `r+`, `r?`, `r{n}` and `r{m,n}`. -/
def Regex.star (r : Regex α) : Regex α := .rep r 0 none true
def Regex.plus (r : Regex α) : Regex α := .rep r 1 none true
def Regex.opt (r : Regex α) : Regex α := .rep r 0 (some 1) true
def Regex.times (n : Nat) (r : Regex α) : Regex α := .rep r n (some 0) true
def Regex.between (m n : Nat) (r : Regex α) : Regex α := .rep r m (some (n - m)) true

/-- One expression after the other. -/
def Regex.cat : List (Regex α) → Regex α
  | [] => .eps
  | [r] => r
  | r :: rs => .seq r (cat rs)

/-- `r|s|…`, for at least one alternative. -/
def Regex.anyOf : List (Regex α) → Regex α
  | [] => .eps
  | [r] => r
  | r :: rs => .alt r (anyOf rs)

/-! ### Cursors of one text -/

/-- The cursor at position `p` of `text`, with nothing captured. -/
def Cursor.at (text : List α) (p : Nat) : Cursor α :=
  ⟨p, if p = 0 then none else text[p - 1]?, text.drop p, none⟩

/-- `c` is a cursor of `text`, whatever it has captured. -/
def Cursor.On (text : List α) (c : Cursor α) : Prop :=
  c.pos ≤ text.length ∧ { c with group := none } = Cursor.at text c.pos

theorem Cursor.on_at {text : List α} {p : Nat} (h : p ≤ text.length) : (Cursor.at text p).On text := ⟨h, rfl⟩

theorem Cursor.On.rest {text : List α} {c : Cursor α} (h : c.On text) : c.rest = text.drop c.pos :=
  congrArg Cursor.rest h.2

theorem Cursor.On.before {text : List α} {c : Cursor α} (h : c.On text) :
    c.before = if c.pos = 0 then none else text[c.pos - 1]? :=
  congrArg Cursor.before h.2

theorem Cursor.On.next {text : List α} {c : Cursor α} (h : c.On text) {x : α} {rest : List α}
    (hx : c.rest = x :: rest) : Cursor.On text { c with pos := c.pos + 1, before := some x, rest } := by
  have hdrop : text.drop c.pos = x :: rest := h.rest.symm.trans hx
  have hlt : c.pos < text.length := by
    have := congrArg List.length hdrop
    simp only [List.length_drop, List.length_cons] at this
    omega
  refine ⟨hlt, ?_⟩
  have hget : text[c.pos]? = some x := by rw [← List.head?_drop, hdrop, List.head?_cons]
  have hrest : text.drop (c.pos + 1) = rest := by rw [← List.tail_drop, hdrop, List.tail_cons]
  simp [Cursor.at, hget, hrest]

/-! ### Copies of a step -/

section Copies
variable {R : Cursor α → Cursor α → Prop} {f : Cursor α → List (Cursor α)}

theorem mem_optional_succ {greedy : Bool} {n : Nat} {c d : Cursor α} :
    d ∈ optional f greedy (n + 1) c ↔
      d = c ∨ ∃ e ∈ f c, c.pos < e.pos ∧ d ∈ optional f greedy n e := by
  simp only [optional]
  cases greedy
  · simp [List.mem_flatMap, List.mem_filter, and_assoc]
  · simp [List.mem_flatMap, List.mem_filter, and_assoc, or_comm]

variable (refl : ∀ c, R c c) (trans : ∀ c d e, R c d → R d e → R c e) (hf : ∀ c, ∀ d ∈ f c, R c d)
include refl trans hf

theorem rel_of_mem_required (n : Nat) (c : Cursor α) : ∀ d ∈ required f n c, R c d := by
  induction n generalizing c with
  | zero =>
    intro d hd
    obtain rfl := List.mem_singleton.mp hd
    exact refl d
  | succ n ih =>
    intro d hd
    obtain ⟨e, he, hd⟩ := List.mem_flatMap.mp hd
    exact trans c e d (hf c e he) (ih e d hd)

theorem rel_of_mem_optional (greedy : Bool) (n : Nat) (c : Cursor α) : ∀ d ∈ optional f greedy n c, R c d := by
  induction n generalizing c with
  | zero =>
    intro d hd
    obtain rfl := List.mem_singleton.mp hd
    exact refl d
  | succ n ih =>
    intro d hd
    rcases mem_optional_succ.mp hd with rfl | ⟨e, he, -, hd⟩
    · exact refl d
    · exact trans c e d (hf c e he) (ih e d hd)

/-- What holds between the ends of a step, and can be chained, holds between the ends of its copies. -/
theorem rel_of_mem_rep (least : Nat) (more : Option Nat) (greedy : Bool) (c : Cursor α) :
    ∀ d ∈ (required f least c).flatMap fun e => optional f greedy (more.getD e.rest.length) e, R c d := by
  intro d hd
  obtain ⟨e, he, hd⟩ := List.mem_flatMap.mp hd
  exact trans c e d (rel_of_mem_required refl trans hf least c e he) (rel_of_mem_optional refl trans hf greedy _ e d hd)

end Copies

/-! ### Where a run can end -/

theorem Regex.mem_runs_char {p : α → Bool} {c d : Cursor α} : d ∈ (Regex.char p).runs c ↔
    ∃ x rest, c.rest = x :: rest ∧ p x = true ∧ d = { c with pos := c.pos + 1, before := some x, rest } := by
  simp only [Regex.runs]
  split
  next hrest => simp [hrest]
  next x rest hrest =>
    by_cases hp : p x = true
    · simp [hrest, hp]
    · simp [hrest, hp]

theorem Regex.mem_runs_look {p : Option α → List α → Bool} {c d : Cursor α} :
    d ∈ (Regex.look p).runs c ↔ p c.before c.rest = true ∧ d = c := by
  simp only [Regex.runs]
  split
  next hp => simp [hp]
  next hp => simp [hp]

theorem Regex.mem_runs_rep_succ {r : Regex α} {n : Nat} {more : Option Nat} {greedy : Bool} {c d : Cursor α} :
    d ∈ (Regex.rep r (n + 1) more greedy).runs c ↔ ∃ e ∈ r.runs c, d ∈ (Regex.rep r n more greedy).runs e := by
  simp only [Regex.runs, required, List.flatMap_assoc]
  exact List.mem_flatMap

/-- Every character that the expression takes satisfies `P`. -/
def Regex.Only (P : α → Prop) : Regex α → Prop
  | .eps | .look _ => True
  | .char p => ∀ x, p x = true → P x
  | .seq r s | .alt r s => r.Only P ∧ s.Only P
  | .rep r _ _ _ | .group r => r.Only P

theorem Regex.only_true (r : Regex α) : r.Only fun _ => True := by
  induction r with
  | eps | look p => trivial
  | char p => exact fun _ _ => trivial
  | seq r s ihr ihs | alt r s ihr ihs => exact ⟨ihr, ihs⟩
  | rep r least more greedy ih | group r ih => exact ih

/-- What holds over each character that may be taken, can be chained, and stays where a group is set, holds between the
    ends of every run. -/
theorem Regex.rel_of_mem_runs {P : α → Prop} {R : Cursor α → Cursor α → Prop} (refl : ∀ c, R c c)
    (trans : ∀ c d e, R c d → R d e → R c e)
    (next : ∀ (c : Cursor α) x rest, c.rest = x :: rest → P x → R c { c with pos := c.pos + 1, before := some x, rest })
    (group : ∀ c d, R c d → R c { d with group := some (c.pos, d.pos) }) {r : Regex α} (h : r.Only P) :
    ∀ c, ∀ d ∈ r.runs c, R c d := by
  induction r with
  | eps =>
    intro c d hd
    obtain rfl := List.mem_singleton.mp hd
    exact refl d
  | char p =>
    intro c d hd
    obtain ⟨x, rest, hx, hp, rfl⟩ := Regex.mem_runs_char.mp hd
    exact next c x rest hx (h x hp)
  | look p =>
    intro c d hd
    obtain ⟨-, rfl⟩ := Regex.mem_runs_look.mp hd
    exact refl d
  | seq r s ihr ihs =>
    intro c d hd
    obtain ⟨e, he, hd⟩ := List.mem_flatMap.mp hd
    exact trans c e d (ihr h.1 c e he) (ihs h.2 e d hd)
  | alt r s ihr ihs =>
    intro c d hd
    rcases List.mem_append.mp hd with hd | hd
    · exact ihr h.1 c d hd
    · exact ihs h.2 c d hd
  | rep r least more greedy ih => exact rel_of_mem_rep refl trans (ih h) least more greedy
  | group r ih =>
    intro c d hd
    obtain ⟨e, he, rfl⟩ := List.mem_map.mp hd
    exact group c e (ih h c e he)

/-! ### Where a match can end -/

section Ends
variable {text : List α} {f : Cursor α → List (Cursor α)}

/-- A step that stays on the text and never goes back. -/
def Forward (text : List α) (f : Cursor α → List (Cursor α)) : Prop :=
  ∀ c, c.On text → ∀ d ∈ f c, d.On text ∧ c.pos ≤ d.pos

/-- From a cursor of the text to one that does not stand before it. -/
def Onward (text : List α) (c d : Cursor α) : Prop := c.On text → d.On text ∧ c.pos ≤ d.pos

theorem Onward.refl (c : Cursor α) : Onward text c c := fun hc => ⟨hc, Nat.le_refl _⟩

theorem Onward.trans (c d e : Cursor α) (hcd : Onward text c d) (hde : Onward text d e) : Onward text c e := by
  intro hc
  obtain ⟨hd, hle⟩ := hcd hc
  obtain ⟨he, hle'⟩ := hde hd
  exact ⟨he, Nat.le_trans hle hle'⟩

theorem Forward.required (hf : Forward text f) (n : Nat) : Forward text (required f n) := fun c hc d hd =>
  rel_of_mem_required Onward.refl Onward.trans (fun c d hd hc => hf c hc d hd) n c d hd hc

theorem Regex.runs_forward (r : Regex α) : Forward text r.runs := by
  intro c hc d hd
  refine rel_of_mem_runs (R := Onward text) Onward.refl Onward.trans ?_ ?_ r.only_true c d hd hc
  · exact fun c x rest hx _ hc => ⟨hc.next hx, Nat.le_succ _⟩
  · exact fun c d h hc => ⟨(h hc).1, (h hc).2⟩

end Ends

theorem Regex.match?_bounds {r : Regex α} {text : List α} {p : Nat} {m : Match} (hp : p ≤ text.length)
    (h : r.match? (Cursor.at text p) = some m) : m.start = p ∧ p ≤ m.stop ∧ m.stop ≤ text.length := by
  simp only [Regex.match?, Option.map_eq_some_iff] at h
  obtain ⟨d, hd, rfl⟩ := h
  obtain ⟨hon, hle⟩ := r.runs_forward _ (Cursor.on_at hp) d (List.mem_of_mem_head? hd)
  exact ⟨rfl, hle, hon.1⟩

/-! ### The scan -/

/-- One step of the scan: it goes past a match, or over one character. -/
def Regex.Next (r : Regex α) (text : List α) (p q : Nat) : Prop :=
  p < text.length ∧
    match r.match? (Cursor.at text p) with
    | none => q = p + 1
    | some m => q = max m.stop (p + 1)

/-- The scan that starts at `p` looks for a match at `q`. -/
def Regex.Reaches (r : Regex α) (text : List α) : Nat → Nat → Prop := Relation.ReflTransGen (r.Next text)

theorem Regex.reaches_iff {r : Regex α} {text : List α} {p q : Nat} :
    r.Reaches text p q ↔ p = q ∨ ∃ p', r.Next text p p' ∧ r.Reaches text p' q :=
  Relation.ReflTransGen.cases_head_iff

theorem Regex.Next.le {r : Regex α} {text : List α} {p q : Nat} (h : r.Next text p q) : p < q ∧ q ≤ text.length := by
  obtain ⟨hp, h⟩ := h
  split at h
  · omega
  · rename_i m hm
    have := (r.match?_bounds (Nat.le_of_lt hp) hm).2.2
    omega

theorem Regex.Reaches.le_length {r : Regex α} {text : List α} {q : Nat} (h : r.Reaches text 0 q) : q ≤ text.length := by
  cases h with
  | refl => exact Nat.zero_le _
  | tail _ hn => exact hn.le.2

/-- The scan reports exactly the matches at the positions that it reaches. -/
theorem Regex.mem_scan {r : Regex α} {text : List α} {m : Match} (rest : List α) :
    ∀ {pos skip : Nat} {before : Option α}, ⟨pos, before, rest, none⟩ = Cursor.at text pos →
      pos + skip ≤ text.length → (m ∈ r.scan pos before skip rest ↔
        r.Reaches text (pos + skip) m.start ∧ r.match? (Cursor.at text m.start) = some m) := by
  induction rest with
  | nil =>
    intro pos skip before hcur hle
    have hlen : text.length ≤ pos := List.drop_eq_nil_iff.mp (congrArg Cursor.rest hcur).symm
    obtain rfl : skip = 0 := by omega
    rw [Regex.scan, hcur, Option.mem_toList, Regex.reaches_iff]
    constructor
    · intro h
      have hstart := (r.match?_bounds (by omega) h).1
      exact ⟨Or.inl (by omega), by rw [hstart]; exact h⟩
    · rintro ⟨h | ⟨p', hn, -⟩, hm⟩
      · rw [← h] at hm
        exact hm
      · have := hn.le
        omega
  | cons x rest ih =>
    intro pos skip before hcur hle
    have hon : Cursor.On text ⟨pos, before, x :: rest, none⟩ := ⟨by show pos ≤ text.length; omega, hcur⟩
    have hlt : pos < text.length := (hon.next rfl).1
    have hnext : ⟨pos + 1, some x, rest, none⟩ = Cursor.at text (pos + 1) := (hon.next rfl).2
    cases skip with
    | succ skip =>
      rw [Regex.scan, ih hnext (by omega), show pos + 1 + skip = pos + (skip + 1) by omega]
    | zero =>
      rw [Regex.scan, hcur, show pos + 0 = pos from rfl]
      cases hm : r.match? (Cursor.at text pos) with
      | none =>
        simp only
        rw [ih hnext (by omega), Nat.add_zero, Regex.reaches_iff (p := pos)]
        refine and_congr_left fun hms => ⟨fun h => Or.inr ⟨pos + 1, ⟨hlt, by simp [hm]⟩, h⟩, ?_⟩
        rintro (rfl | ⟨p', hn, h⟩)
        · rw [hm] at hms
          cases hms
        · obtain ⟨-, hn⟩ := hn
          simp only [hm] at hn
          exact hn ▸ h
      | some m₀ =>
        obtain ⟨hstart, hge, hstop⟩ := r.match?_bounds (Nat.le_of_lt hlt) hm
        simp only
        rw [List.mem_cons, ih hnext (by omega), Regex.reaches_iff (p := pos),
          show pos + 1 + (m₀.stop - (pos + 1)) = max m₀.stop (pos + 1) by omega]
        constructor
        · rintro (rfl | ⟨h, hms⟩)
          · exact ⟨Or.inl hstart.symm, by rw [hstart]; exact hm⟩
          · exact ⟨Or.inr ⟨_, ⟨hlt, by simp [hm]⟩, h⟩, hms⟩
        · rintro ⟨rfl | ⟨p', hn, h⟩, hms⟩
          · rw [hm] at hms
            cases hms
            exact Or.inl rfl
          · obtain ⟨-, hn⟩ := hn
            simp only [hm] at hn
            exact Or.inr ⟨hn ▸ h, hms⟩

theorem Regex.mem_finditer {r : Regex α} {text : List α} {m : Match} :
    m ∈ r.finditer text ↔ r.Reaches text 0 m.start ∧ r.match? (Cursor.at text m.start) = some m :=
  r.mem_scan text (by simp [Cursor.at]) (Nat.zero_le _)

/-! ### Groups -/

/-- Every match of the expression sets the group. -/
def Regex.captures : Regex α → Bool
  | .eps | .char _ | .look _ => false
  | .seq r s => r.captures || s.captures
  | .alt r s => r.captures && s.captures
  | .rep r least _ _ => least != 0 && r.captures
  | .group _ => true

/-- A step after which the group is set if it was set before. -/
def Keeps (f : Cursor α → List (Cursor α)) : Prop := ∀ c, c.group.isSome → ∀ d ∈ f c, d.group.isSome

theorem Regex.runs_keeps (r : Regex α) : Keeps r.runs := by
  intro c hc d hd
  refine rel_of_mem_runs (R := fun c d => c.group.isSome = true → d.group.isSome = true) ?_ ?_ ?_ ?_ r.only_true c d hd hc
  · exact fun _ hc => hc
  · exact fun _ _ _ hcd hde hc => hde (hcd hc)
  · exact fun _ _ _ _ _ hc => hc
  · exact fun _ _ _ _ => rfl

theorem Regex.group_of_captures {r : Regex α} (h : r.captures = true) : ∀ c, ∀ d ∈ r.runs c, d.group.isSome := by
  induction r with
  | eps => cases h
  | char p => cases h
  | look p => cases h
  | seq r s ihr ihs =>
    intro c d hd
    obtain ⟨e, he, hd⟩ := List.mem_flatMap.mp hd
    rcases Bool.or_eq_true_iff.mp h with hr | hs
    · exact s.runs_keeps e (ihr hr c e he) d hd
    · exact ihs hs e d hd
  | alt r s ihr ihs =>
    intro c d hd
    obtain ⟨hr, hs⟩ := Bool.and_eq_true_iff.mp h
    rcases List.mem_append.mp hd with hd | hd
    · exact ihr hr c d hd
    · exact ihs hs c d hd
  | rep r least more greedy ih =>
    intro c d hd
    obtain ⟨hleast, hr⟩ := Bool.and_eq_true_iff.mp h
    obtain ⟨n, rfl⟩ := Nat.exists_eq_succ_of_ne_zero (bne_iff_ne.mp hleast)
    -- The first copy captures, and the others keep the group.
    obtain ⟨e, he, hd⟩ := Regex.mem_runs_rep_succ.mp hd
    exact (Regex.rep r n more greedy).runs_keeps e (ih hr c e he) d hd
  | group r _ =>
    intro c d hd
    obtain ⟨e, -, rfl⟩ := List.mem_map.mp hd
    rfl

theorem Regex.match?_group {r : Regex α} (h : r.captures = true) {c : Cursor α} {m : Match}
    (hm : r.match? c = some m) : ∃ span, m.group = some span := by
  simp only [Regex.match?, Option.map_eq_some_iff] at hm
  obtain ⟨d, hd, rfl⟩ := hm
  exact Option.isSome_iff_exists.mp (Regex.group_of_captures h c d (List.mem_of_mem_head? hd))

/-! ### Characters -/

section Characters
variable {P : α → Prop}

/-- A step that takes characters of the kind `P` only. -/
def Takes (P : α → Prop) (f : Cursor α → List (Cursor α)) : Prop :=
  ∀ c, ∀ d ∈ f c, ∃ w, c.rest = w ++ d.rest ∧ d.pos = c.pos + w.length ∧ ∀ x ∈ w, P x

theorem Takes.refl (c : Cursor α) : ∃ w, c.rest = w ++ c.rest ∧ c.pos = c.pos + w.length ∧ ∀ x ∈ w, P x :=
  ⟨[], rfl, rfl, fun _ h => by cases h⟩

theorem Takes.trans {c d e : Cursor α} (h : ∃ w, c.rest = w ++ d.rest ∧ d.pos = c.pos + w.length ∧ ∀ x ∈ w, P x)
    (h' : ∃ w, d.rest = w ++ e.rest ∧ e.pos = d.pos + w.length ∧ ∀ x ∈ w, P x) :
    ∃ w, c.rest = w ++ e.rest ∧ e.pos = c.pos + w.length ∧ ∀ x ∈ w, P x := by
  obtain ⟨w, hw, hpos, hP⟩ := h
  obtain ⟨w', hw', hpos', hP'⟩ := h'
  refine ⟨w ++ w', by rw [hw, hw', List.append_assoc], by rw [hpos', hpos, List.length_append, Nat.add_assoc], ?_⟩
  intro x hx
  rcases List.mem_append.mp hx with hx | hx
  · exact hP x hx
  · exact hP' x hx

theorem Regex.Only.takes {r : Regex α} (h : r.Only P) : Takes P r.runs := by
  refine rel_of_mem_runs Takes.refl (fun _ _ _ => Takes.trans) ?_ (fun _ _ h => h) h
  intro c x rest hx hP
  refine ⟨[x], hx, rfl, fun y hy => ?_⟩
  rw [List.mem_singleton.mp hy]
  exact hP

theorem Regex.Only.match? {r : Regex α} (h : r.Only P) {text : List α} {p : Nat} {m : Match}
    (hm : r.match? (Cursor.at text p) = some m) : ∀ x ∈ (text.drop m.start).take (m.stop - m.start), P x := by
  simp only [Regex.match?, Option.map_eq_some_iff] at hm
  obtain ⟨d, hd, rfl⟩ := hm
  obtain ⟨w, hrest, hpos, hw⟩ := h.takes _ d (List.mem_of_mem_head? hd)
  have hdrop : text.drop p = w ++ d.rest := hrest
  have hlen : d.pos - p = w.length := by rw [hpos]; exact Nat.add_sub_cancel_left p w.length
  show ∀ x ∈ (text.drop p).take (d.pos - p), P x
  rw [hdrop, hlen, List.take_left]
  exact hw

end Characters

/-! ### First characters -/

def Regex.isLook : Regex α → Bool
  | .look _ => true
  | _ => false

/-- Every match takes a character, and the first one belongs to a class that is `ok`. -/
def Regex.begins (ok : (α → Bool) → Bool) : Regex α → Bool
  | .eps | .look _ => false
  | .char p => ok p
  | .seq r s => r.begins ok || r.isLook && s.begins ok
  | .alt r s => r.begins ok && s.begins ok
  | .rep r least _ _ => least != 0 && r.begins ok
  | .group r => r.begins ok

/-- What is captured begins in this way. -/
def Regex.groupsBegin (ok : (α → Bool) → Bool) : Regex α → Bool
  | .eps | .char _ | .look _ => true
  | .seq r s | .alt r s => r.groupsBegin ok && s.groupsBegin ok
  | .rep r _ _ _ => r.groupsBegin ok
  | .group r => r.begins ok

section First
variable {ok : (α → Bool) → Bool} {P : α → Prop} {text : List α}

/-- The text has a character of the kind `P` at `start`, and `stop` comes later. -/
def StartsWith (P : α → Prop) (text : List α) (start stop : Nat) : Prop :=
  start < stop ∧ ∃ x, text[start]? = some x ∧ P x

theorem StartsWith.mono {start stop stop' : Nat} (h : StartsWith P text start stop) (hle : stop ≤ stop') :
    StartsWith P text start stop' :=
  ⟨Nat.lt_of_lt_of_le h.1 hle, h.2⟩

variable (hok : ∀ p, ok p = true → ∀ x, p x = true → P x)
include hok

theorem Regex.runs_begin {r : Regex α} (h : r.begins ok = true) {c : Cursor α} (hc : c.On text) :
    ∀ d ∈ r.runs c, StartsWith P text c.pos d.pos := by
  induction r generalizing c with
  | eps => cases h
  | look p => cases h
  | char p =>
    intro d hd
    obtain ⟨x, rest, hx, hp, rfl⟩ := mem_runs_char.mp hd
    have hget : text[c.pos]? = some x := by rw [← List.head?_drop, ← hc.rest, hx, List.head?_cons]
    exact ⟨Nat.lt_succ_self _, x, hget, hok p h x hp⟩
  | seq r s ihr ihs =>
    intro d hd
    obtain ⟨e, he, hd⟩ := List.mem_flatMap.mp hd
    obtain ⟨hon, hle⟩ := r.runs_forward c hc e he
    obtain ⟨-, hle'⟩ := s.runs_forward e hon d hd
    rcases Bool.or_eq_true_iff.mp h with hr | hs
    · exact (ihr hr hc e he).mono hle'
    · obtain ⟨hlook, hs⟩ := Bool.and_eq_true_iff.mp hs
      have hsame : e = c := by
        cases r with
        | look p => exact (mem_runs_look.mp he).2
        | _ => cases hlook
      exact hsame ▸ ihs hs hon d hd
  | alt r s ihr ihs =>
    intro d hd
    obtain ⟨hr, hs⟩ := Bool.and_eq_true_iff.mp h
    rcases List.mem_append.mp hd with hd | hd
    · exact ihr hr hc d hd
    · exact ihs hs hc d hd
  | rep r least more greedy ih =>
    intro d hd
    obtain ⟨hleast, hr⟩ := Bool.and_eq_true_iff.mp h
    obtain ⟨n, rfl⟩ := Nat.exists_eq_succ_of_ne_zero (bne_iff_ne.mp hleast)
    obtain ⟨e, he, hd⟩ := mem_runs_rep_succ.mp hd
    obtain ⟨hon, -⟩ := r.runs_forward c hc e he
    obtain ⟨-, hle⟩ := (Regex.rep r n more greedy).runs_forward e hon d hd
    exact (ih hr hc e he).mono hle
  | group r ih =>
    intro d hd
    obtain ⟨e, he, rfl⟩ := List.mem_map.mp hd
    exact ih h hc e he

/-- What the cursor has captured begins with a character of the kind `P` and ends before the cursor. -/
def Captured (P : α → Prop) (text : List α) (c : Cursor α) : Prop :=
  ∀ start stop, c.group = some (start, stop) → StartsWith P text start stop ∧ stop ≤ c.pos

theorem Regex.runs_groupsBegin {r : Regex α} (h : r.groupsBegin ok = true) :
    ∀ c : Cursor α, ∀ d ∈ r.runs c, c.On text → Captured P text c → Captured P text d := by
  induction r with
  | eps =>
    intro c d hd _ hcap
    obtain rfl := List.mem_singleton.mp hd
    exact hcap
  | look p =>
    intro c d hd _ hcap
    obtain ⟨-, rfl⟩ := mem_runs_look.mp hd
    exact hcap
  | char p =>
    intro c d hd hc hcap start stop hgroup
    obtain ⟨x, rest, -, -, rfl⟩ := mem_runs_char.mp hd
    obtain ⟨hstart, hle⟩ := hcap start stop hgroup
    exact ⟨hstart, Nat.le_succ_of_le hle⟩
  | seq r s ihr ihs =>
    intro c d hd hc hcap
    obtain ⟨hr, hs⟩ := Bool.and_eq_true_iff.mp h
    obtain ⟨e, he, hd⟩ := List.mem_flatMap.mp hd
    exact ihs hs e d hd (r.runs_forward c hc e he).1 (ihr hr c e he hc hcap)
  | alt r s ihr ihs =>
    intro c d hd hc hcap
    obtain ⟨hr, hs⟩ := Bool.and_eq_true_iff.mp h
    rcases List.mem_append.mp hd with hd | hd
    · exact ihr hr c d hd hc hcap
    · exact ihs hs c d hd hc hcap
  | rep r least more greedy ih =>
    have hrel := rel_of_mem_rep (R := fun c d => c.On text → Captured P text c → d.On text ∧ Captured P text d)
      (f := r.runs) (fun c hc hcap => ⟨hc, hcap⟩)
      (fun c d e hcd hde hc hcap => hde (hcd hc hcap).1 (hcd hc hcap).2)
      (fun c d hd hc hcap => ⟨(r.runs_forward c hc d hd).1, ih h c d hd hc hcap⟩) least more greedy
    exact fun c d hd hc hcap => (hrel c d hd hc hcap).2
  | group r _ =>
    intro c d hd hc _ start stop hgroup
    obtain ⟨e, he, rfl⟩ := List.mem_map.mp hd
    obtain ⟨rfl, rfl⟩ := Prod.mk.inj (Option.some.inj hgroup)
    exact ⟨runs_begin hok h hc e he, Nat.le_refl _⟩

theorem Regex.match?_begins {r : Regex α} (h : r.begins ok = true) {p : Nat} {m : Match} (hp : p ≤ text.length)
    (hm : r.match? (Cursor.at text p) = some m) : StartsWith P text m.start m.stop := by
  simp only [Regex.match?, Option.map_eq_some_iff] at hm
  obtain ⟨d, hd, rfl⟩ := hm
  exact runs_begin hok h (Cursor.on_at hp) d (List.mem_of_mem_head? hd)

/-- What a reported match captures lies in the text and begins with a character of the kind `P`. -/
theorem Regex.match?_groupsBegin {r : Regex α} (h : r.groupsBegin ok = true) {p : Nat} {m : Match}
    (hp : p ≤ text.length) (hm : r.match? (Cursor.at text p) = some m) {start stop : Nat}
    (hgroup : m.group = some (start, stop)) : StartsWith P text start stop ∧ stop ≤ text.length := by
  simp only [Regex.match?, Option.map_eq_some_iff] at hm
  obtain ⟨d, hd, rfl⟩ := hm
  have hmem := List.mem_of_mem_head? hd
  obtain ⟨hon, -⟩ := r.runs_forward _ (Cursor.on_at hp) d hmem
  have hcap : Captured P text (Cursor.at text p) := fun _ _ h => by cases h
  obtain ⟨hstart, hle⟩ := runs_groupsBegin hok h _ d hmem (Cursor.on_at hp) hcap start stop hgroup
  exact ⟨hstart, Nat.le_trans hle hon.1⟩

end First

end Backtrack
