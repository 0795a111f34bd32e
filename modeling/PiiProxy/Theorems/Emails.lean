import PiiProxy.Detection.RegexDetector
import PiiProxy.Lib.RegexRuns

/-! # Which email addresses the detector finds

The pattern backtracks: a host ends behind the last dot that two letters follow, and what is left of its characters may
begin the next address. Every address is found from its first character to the end of its host, unless it stands behind
an `@`, where the address before may take its local part for a host. -/

namespace PiiProxy.Emails
open Backtrack Regex Patterns

/-- `[A-Za-z0-9._%+-]` -/
def localChar (c : Char) : Bool := enLetter c || asciiDigit c || "._%+-".toList.contains c

/-- `[A-Za-z0-9.-]` -/
def hostChar (c : Char) : Bool := enLetter c || asciiDigit c || ".-".toList.contains c

variable {text : Str}

/-- A host stands at `[h, j)`: characters of a host, a dot, and two letters at least. -/
def Host (text : Str) (h j : Nat) : Prop :=
  ∃ k, h < k ∧ Within hostChar text h k ∧ text[k]? = some '.' ∧ k + 3 ≤ j ∧ Within enLetter text (k + 1) j

/-- An address stands at `[i, j)`, with its `@` at `a`; the host is the longest one there. -/
structure Address (text : Str) (i a j : Nat) : Prop where
  lt : i < a
  localPart : Within localChar text i a
  at_sign : text[a]? = some '@'
  host : Host text (a + 1) j
  longest : ∀ j', Host text (a + 1) j' → j' ≤ j

/-- No character of a local part stands before `i`. -/
def Begins (text : Str) (i : Nat) : Prop := i ≠ 0 → ∀ x, text[i - 1]? = some x → localChar x = false

/-! ### The characters -/

theorem hostChar_of_letter {x : Char} (h : enLetter x = true) : hostChar x = true := by
  rw [hostChar, h]
  rfl

theorem localChar_of_hostChar {x : Char} (h : hostChar x = true) : localChar x = true := by
  rw [hostChar, Bool.or_eq_true] at h
  rw [localChar, Bool.or_eq_true]
  refine h.imp_right fun hmark => ?_
  rw [List.contains_iff_mem] at hmark ⊢
  exact List.Sublist.subset (by decide : ".-".toList.Sublist "._%+-".toList) hmark

theorem Host.within {h j : Nat} (hhost : Host text h j) : h + 4 ≤ j ∧ Within hostChar text h j := by
  obtain ⟨k, hk, hwithin, hdot, hj, htld⟩ := hhost
  exact ⟨by omega, (hwithin.trans (within_succ hdot rfl)).trans (htld.imp fun _ => hostChar_of_letter)⟩

theorem Address.lt_stop {i a j : Nat} (h : Address text i a j) : a < j := by
  have := h.host.within.1
  omega

theorem Address.stop_le {i a j : Nat} (h : Address text i a j) : j ≤ text.length := by
  have hlt : a < text.length := (List.getElem?_eq_some_iff.mp h.at_sign).1
  exact h.host.within.2.le_length hlt

/-! ### The pattern -/

/-- `\.[A-Za-z]{2,}` -/
def ending : Pattern := .seq (lit '.') (.rep (.char enLetter) 2 none true)

/-- `[A-Za-z0-9.-]+\.[A-Za-z]{2,}` -/
def hostPart : Pattern := .seq (plus (.char hostChar)) ending

theorem lit_runs (x : Char) (i : Nat) :
    (lit x).runs (Cursor.at text i) = if text[i]? = some x then [Cursor.at text (i + 1)] else [] := by
  have hpos : 0 < runLength (· == x) text i ↔ text[i]? = some x := by
    rw [runLength_pos_iff]
    constructor
    · rintro ⟨y, hy, hyx⟩
      rw [hy, beq_iff_eq.mp hyx]
    · exact fun h => ⟨x, h, BEq.rfl⟩
  rw [lit, char_runs_at]
  simp only [hpos]

theorem ending_head (k : Nat) : (ending.runs (Cursor.at text k)).head? =
    if text[k]? = some '.' ∧ Within enLetter text (k + 1) (k + 3) then
      some (Cursor.at text (k + 1 + runLength enLetter text (k + 1))) else none := by
  rw [ending, Regex.runs, lit_runs]
  by_cases hdot : text[k]? = some '.'
  · rw [if_pos hdot, List.flatMap_singleton, rep_char_runs_none]
    by_cases htwo : 2 ≤ runLength enLetter text (k + 1)
    · rw [if_pos htwo, if_pos ⟨hdot, le_runLength_iff.mp htwo⟩, head?_backTo, Nat.add_assoc (k + 1),
        Nat.add_sub_cancel' htwo]
    · rw [if_neg htwo, if_neg fun h => htwo (le_runLength_iff.mpr h.2)]
      rfl
  · rw [if_neg hdot, if_neg fun h => hdot h.1]
    rfl

/-- The last dot that two letters follow gives the longest host. -/
theorem host_of_last {h k : Nat} (hk : h < k) (hwithin : Within hostChar text h k) (hdot : text[k]? = some '.')
    (htwo : Within enLetter text (k + 1) (k + 3))
    (hlast : ∀ k', k < k' → Within hostChar text h k' → text[k']? = some '.' → ¬ Within enLetter text (k' + 1) (k' + 3)) :
    Host text h (k + 1 + runLength enLetter text (k + 1)) ∧
      ∀ j', Host text h j' → j' ≤ k + 1 + runLength enLetter text (k + 1) := by
  have hlength : 2 ≤ runLength enLetter text (k + 1) := le_runLength_iff.mpr htwo
  refine ⟨⟨k, hk, hwithin, hdot, by omega, within_runLength enLetter text (k + 1)⟩, ?_⟩
  rintro j' ⟨k', -, hwithin', hdot', hj', htld'⟩
  rcases Nat.lt_trichotomy k k' with hlt | rfl | hlt
  · exact absurd (htld'.mono (Nat.le_refl _) hj') (hlast k' hlt hwithin' hdot')
  · have hle := htld'.sub_le_runLength (by omega)
    omega
  · have hle : j' ≤ k := htld'.not_of_getElem? hlt hdot rfl
    omega

theorem hostPart_head (h : Nat) {d : Cursor Char} : (hostPart.runs (Cursor.at text h)).head? = some d ↔
    ∃ j, Host text h j ∧ (∀ j', Host text h j' → j' ≤ j) ∧ d = Cursor.at text j := by
  have hruns : hostPart.runs (Cursor.at text h) = (if 1 ≤ runLength hostChar text h then
      backTo text (h + 1) (runLength hostChar text h - 1) else []).flatMap ending.runs := by
    rw [hostPart, Regex.runs, plus, rep_char_runs_none]
  have hnil : ∀ k, ending.runs (Cursor.at text k) = [] ↔
      ¬ (text[k]? = some '.' ∧ Within enLetter text (k + 1) (k + 3)) := by
    intro k
    rw [← List.head?_eq_none_iff, ending_head]
    by_cases hends : text[k]? = some '.' ∧ Within enLetter text (k + 1) (k + 3)
    · simp [hends]
    · simp [hends]
  have hsound : ∀ d, (hostPart.runs (Cursor.at text h)).head? = some d →
      ∃ j, Host text h j ∧ (∀ j', Host text h j' → j' ≤ j) ∧ d = Cursor.at text j := by
    intro d hd
    rw [hruns] at hd
    split at hd
    · rename_i hpos
      obtain ⟨k, hk, hle, hends, hlast⟩ := head?_flatMap_backTo.mp hd
      rw [ending_head] at hends
      split at hends
      · rename_i hdot
        obtain rfl := Option.some.inj hends
        have hwithin : Within hostChar text h k := (within_runLength hostChar text h).mono (Nat.le_refl h) (by omega)
        obtain ⟨hhost, hlongest⟩ := host_of_last hk hwithin hdot.1 hdot.2 fun k' hlt hwithin' hdot' htwo => by
          have hle' := hwithin'.sub_le_runLength (by omega)
          exact (hnil k').mp (hlast k' hlt (by omega)) ⟨hdot', htwo⟩
        exact ⟨_, hhost, hlongest, rfl⟩
      · cases hends
    · cases hd
  constructor
  · exact hsound d
  · rintro ⟨j, hhost, hlongest, rfl⟩
    cases hhead : (hostPart.runs (Cursor.at text h)).head? with
    | some d =>
      obtain ⟨j', hhost', hlongest', rfl⟩ := hsound d hhead
      rw [Nat.le_antisymm (hlongest j' hhost') (hlongest' j hhost)]
    | none =>
      obtain ⟨k, hk, hwithin, hdot, hj, htld⟩ := hhost
      have hle := hwithin.sub_le_runLength (Nat.le_of_lt hk)
      rw [hruns, if_pos (by omega), List.head?_eq_none_iff, List.flatMap_eq_nil_iff] at hhead
      have hends := hhead (Cursor.at text k) (mem_backTo.mpr ⟨k, hk, by omega, rfl⟩)
      exact absurd ⟨hdot, htld.mono (Nat.le_refl _) hj⟩ ((hnil k).mp hends)

/-- A match of the pattern is an address. -/
theorem match?_iff {i : Nat} {m : Match} : email.match? (Cursor.at text i) = some m ↔
    m.start = i ∧ (∃ a, Address text i a m.stop) ∧ m.group = none := by
  have hruns : email.runs (Cursor.at text i) = (if 1 ≤ runLength localChar text i then
      backTo text (i + 1) (runLength localChar text i - 1) else []).flatMap (Regex.seq (lit '@') hostPart).runs := by
    rw [← rep_char_runs_none]
    rfl
  have hhead : ∀ a, (∃ d, ((Regex.seq (lit '@') hostPart).runs (Cursor.at text a)).head? = some d) → text[a]? = some '@' := by
    rintro a ⟨d, hd⟩
    rw [Regex.runs, lit_runs] at hd
    split at hd
    · assumption
    · cases hd
  have hhost : ∀ a d, text[a]? = some '@' → (((Regex.seq (lit '@') hostPart).runs (Cursor.at text a)).head? = some d ↔
      ∃ j, Host text (a + 1) j ∧ (∀ j', Host text (a + 1) j' → j' ≤ j) ∧ d = Cursor.at text j) := by
    intro a d ha
    rw [Regex.runs, lit_runs, if_pos ha, List.flatMap_singleton, hostPart_head]
  rw [Regex.match?, Option.map_eq_some_iff, hruns]
  constructor
  · rintro ⟨d, hd, rfl⟩
    split at hd
    · obtain ⟨a, hia, hle, hrest, -⟩ := head?_flatMap_backTo.mp hd
      have ha := hhead a ⟨d, hrest⟩
      obtain ⟨j, hj, hlongest, rfl⟩ := (hhost a d ha).mp hrest
      have hwithin : Within localChar text i a := (within_runLength localChar text i).mono (Nat.le_refl i) (by omega)
      exact ⟨rfl, ⟨a, hia, hwithin, ha, hj, hlongest⟩, rfl⟩
    · cases hd
  · rintro ⟨hstart, ⟨a, hia, hwithin, ha, hj, hlongest⟩, hgroup⟩
    obtain ⟨start, stop, group⟩ := m
    obtain rfl : start = i := hstart
    obtain rfl : group = none := hgroup
    have hlength : start + runLength localChar text start = a := by
      refine runLength_of_stop (Nat.le_of_lt hia) hwithin fun x hx => ?_
      obtain rfl := Option.some.inj (ha.symm.trans hx)
      rfl
    refine ⟨Cursor.at text stop, ?_, rfl⟩
    rw [if_pos (by omega), head?_flatMap_backTo]
    refine ⟨a, hia, by omega, (hhost a _ ha).mpr ⟨stop, hj, hlongest, rfl⟩, fun a' hlt hle => ?_⟩
    -- Only the `@` ends a local part.
    omega

/-! ### The scan -/

/-- A match that runs into an address takes its local part for a host. -/
theorem crosses {i a j k b s : Nat} (h : Address text i a j) (hbegins : Begins text i) (h' : Address text k b s)
    (hki : k < i) (his : i < s) : text[i - 1]? = some '@' ∧ s ≤ a := by
  have hback : Within localChar text (b + 1) s := h'.host.within.2.imp fun _ => localChar_of_hostChar
  have hb : b = i - 1 := by
    rcases Nat.lt_trichotomy b (i - 1) with hlt | rfl | hlt
    · obtain ⟨x, hx, hp⟩ := hback (i - 1) (by omega) (by omega)
      rw [hbegins (by omega) x hx] at hp
      cases hp
    · rfl
    · obtain ⟨x, hx, hp⟩ := h'.localPart (i - 1) (by omega) hlt
      rw [hbegins (by omega) x hx] at hp
      cases hp
  have hlt := h.lt
  exact ⟨hb ▸ h'.at_sign, h'.host.within.2.not_of_getElem? (by omega) h.at_sign rfl⟩

theorem mem_finditer {m : Match} : m ∈ email.finditer text ↔
    email.Reaches text 0 m.start ∧ (∃ a, Address text m.start a m.stop) ∧ m.group = none := by
  rw [Regex.mem_finditer, match?_iff]
  simp

/-- The match of an address, or the match that takes some of its local part and the match of the rest. -/
theorem finds {i a j : Nat} (h : Address text i a j) (hbegins : Begins text i) :
    ⟨i, j, none⟩ ∈ email.finditer text ∨ ∃ k s, k < i ∧ i < s ∧ text[i - 1]? = some '@' ∧
      ⟨k, s, none⟩ ∈ email.finditer text ∧ (s = a ∨ s < a ∧ ⟨s, j, none⟩ ∈ email.finditer text) := by
  have hlt := h.lt
  have hi : i ≤ text.length := by
    have := h.lt_stop
    have := h.stop_le
    omega
  rcases Regex.reaches_or_crosses (r := email) hi with hreach | ⟨⟨k, s, group⟩, hm, hki, his⟩
  · exact Or.inl (mem_finditer.mpr ⟨hreach, ⟨a, h⟩, rfl⟩)
  · obtain ⟨-, ⟨b, h'⟩, hgroup⟩ := mem_finditer.mp hm
    obtain rfl : group = none := hgroup
    obtain ⟨hat, hsa⟩ := crosses h hbegins h' hki his
    refine Or.inr ⟨k, s, hki, his, hat, hm, ?_⟩
    rcases Nat.eq_or_lt_of_le hsa with rfl | hlt
    · exact Or.inl rfl
    · -- The rest of the local part begins where the scan goes on.
      have hreach := Regex.reaches_stop hm (Nat.lt_trans hki his)
      have hrest : Address text s a j :=
        ⟨hlt, h.localPart.mono (Nat.le_of_lt his) (Nat.le_refl a), h.at_sign, h.host, h.longest⟩
      exact Or.inr ⟨hlt, mem_finditer.mpr ⟨hreach, ⟨a, hrest⟩, rfl⟩⟩

/-! ### What is found -/

/-- What the detector reports as email addresses are addresses. It finds each with its exact span, unless an `@` stands
    before it; there the address before ends inside its local part, and the rest is found, or it takes all of that. -/
theorem detect_emails (today : Date) (text : Str) : ∃ entities, RegexDetector.detect today text = .ok entities ∧
    (∀ e ∈ entities, e.type = .email → ∃ i a j, Address text i a j ∧ e = RegexDetector.found text .email i j) ∧
    ∀ i a j, Address text i a j → Begins text i → RegexDetector.found text .email i j ∈ entities ∨
      ∃ k s, k < i ∧ i < s ∧ text[i - 1]? = some '@' ∧ RegexDetector.found text .email k s ∈ entities ∧
        (s = a ∨ s < a ∧ RegexDetector.found text .email s j ∈ entities) := by
  obtain ⟨entities, hdetect⟩ := RegexDetector.detect_isOk today text
  have hrule : (PIIType.email, email) ∈ rules := List.mem_cons_self
  have hmem := RegexDetector.mem_detect_type hdetect hrule
  have hentity : ∀ m e, RegexDetector.entityOf today text .email m = .ok (some e) ↔
      e = RegexDetector.found text .email m.start m.stop := by
    intro m e
    rw [RegexDetector.entityOf_ungrouped rfl]
    simp [validator, RegexDetector.dropped, markerTypes, addressComponentTypes]
  have hfound : ∀ i j, (⟨i, j, none⟩ : Match) ∈ email.finditer text → RegexDetector.found text .email i j ∈ entities :=
    fun i j hm => ((hmem _).mpr ⟨_, hm, (hentity _ _).mpr rfl⟩).1
  refine ⟨entities, hdetect, ?_, ?_⟩
  · intro e he htype
    obtain ⟨m, hm, he⟩ := (hmem e).mp ⟨he, htype⟩
    obtain ⟨-, ⟨a, haddress⟩, -⟩ := mem_finditer.mp hm
    exact ⟨m.start, a, m.stop, haddress, (hentity m e).mp he⟩
  · intro i a j haddress hbegins
    rcases finds haddress hbegins with hm | ⟨k, s, hki, his, hat, hm, hrest⟩
    · exact Or.inl (hfound i j hm)
    · exact Or.inr ⟨k, s, hki, his, hat, hfound k s hm, hrest.imp_right fun h => ⟨h.1, hfound s j h.2⟩⟩

end PiiProxy.Emails
