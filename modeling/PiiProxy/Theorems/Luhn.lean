import PiiProxy.Detection.RegexDetector
import PiiProxy.Lib.CheckDigit

/-! # What the Luhn check detects

The check depends on the digits only. It has one check digit for each payload, and finds every wrong digit and every swap
of neighbours but that of 0 and 9, which add the same either way round. -/

namespace PiiProxy
open CheckDigit RegexDetector

/-- The digits from the right. -/
def digitValues (s : Str) : List Nat := ((digits s).map digitValue).reverse

/-- The sum of the check, of digits whose last one stands at the place `i`. -/
def luhnSum (i : Nat) (s : Str) : Nat := total luhnTerm i (digitValues s)

theorem luhn_eq {s : Str} (h : ∀ c ∈ s, Countable c) :
    luhn s = some (decide (13 ≤ (digits s).length ∧ (digits s).length ≤ 19 ∧ luhnSum 0 s % 10 = 0)) := by
  have hdecimal : ∀ c ∈ (digits s).reverse, isdecimal c = true := fun c hc =>
    isdecimal_of_mem_digits h c (List.mem_reverse.mp hc)
  have hsum : (((digits s).reverse.map digitValue).zipIdx.map fun a => luhnTerm a.2 a.1).foldl (· + ·) 0 = luhnSum 0 s := by
    rw [luhnSum, digitValues, total_eq_sum, List.map_reverse, List.sum_eq_foldl]
  unfold luhn
  dsimp only
  split
  · rename_i hlen
    rw [mapM_intOfChar hdecimal]
    show some ((((digits s).reverse.map digitValue).zipIdx.map fun a => luhnTerm a.2 a.1).foldl (· + ·) 0 % 10 == 0) = _
    rw [hsum, Option.some.injEq, Bool.eq_iff_iff, beq_iff_eq, decide_eq_true_eq, ← and_assoc, and_iff_right hlen]
  · rename_i hlen
    rw [Option.some.injEq, eq_comm, decide_eq_false_iff_not]
    exact fun h => hlen ⟨h.1, h.2.1⟩

/-! ### The digits -/

theorem exists_ofNat {c : Char} (h : c.isDigit = true) : ∃ n < 10, Char.ofNat (48 + n) = c := by
  have hrange : 48 ≤ c.toNat ∧ c.toNat ≤ 57 := by
    rw [Char.isDigit, Bool.and_eq_true, decide_eq_true_eq, decide_eq_true_eq] at h
    exact h
  refine ⟨c.toNat - 48, by omega, ?_⟩
  rw [Nat.add_sub_cancel' hrange.1, Char.ofNat_toNat]

theorem ofNat_digit {n : Nat} (h : n < 10) : (Char.ofNat (48 + n)).isDigit = true ∧ isdecimal (Char.ofNat (48 + n)) = true ∧
    isdigit (Char.ofNat (48 + n)) = true ∧ digitValue (Char.ofNat (48 + n)) = n := by
  have hall : ∀ n < 10, (Char.ofNat (48 + n)).isDigit = true ∧ isdecimal (Char.ofNat (48 + n)) = true ∧
      isdigit (Char.ofNat (48 + n)) = true ∧ digitValue (Char.ofNat (48 + n)) = n := by decide +kernel
  exact hall n h

theorem asciiDigit {c : Char} (h : c.isDigit = true) : isdecimal c = true ∧ isdigit c = true ∧ digitValue c < 10 := by
  obtain ⟨n, hn, rfl⟩ := exists_ofNat h
  obtain ⟨-, hdecimal, hdigit, hvalue⟩ := ofNat_digit hn
  exact ⟨hdecimal, hdigit, hvalue.symm ▸ hn⟩

theorem eq_of_digitValue_eq {c d : Char} (hc : c.isDigit = true) (hd : d.isDigit = true)
    (h : digitValue c = digitValue d) : c = d := by
  obtain ⟨m, hm, rfl⟩ := exists_ofNat hc
  obtain ⟨n, hn, rfl⟩ := exists_ofNat hd
  obtain ⟨-, -, -, hvalue⟩ := ofNat_digit hm
  obtain ⟨-, -, -, hvalue'⟩ := ofNat_digit hn
  rw [hvalue, hvalue'] at h
  rw [h]

theorem exists_digit {n : Nat} (h : n < 10) : ∃ c : Char, c.isDigit = true ∧ digitValue c = n := by
  obtain ⟨hdigit, -, -, hvalue⟩ := ofNat_digit h
  exact ⟨_, hdigit, hvalue⟩

/-! ### What a digit adds -/

theorem luhnTerm_mod (i d : Nat) : luhnTerm (i % 2) d = luhnTerm i d := by
  rw [luhnTerm, luhnTerm, Nat.mod_mod]

/-- At each place, different digits add different amounts. -/
theorem luhnTerm_inj {i a b : Nat} (ha : a < 10) (hb : b < 10) (h : luhnTerm i a % 10 = luhnTerm i b % 10) : a = b := by
  have hall : ∀ p < 2, ∀ a < 10, ∀ b < 10, luhnTerm p a % 10 = luhnTerm p b % 10 → a = b := by decide
  rw [← luhnTerm_mod i a, ← luhnTerm_mod i b] at h
  exact hall (i % 2) (Nat.mod_lt i (by decide)) a ha b hb h

/-- Two neighbours add the same either way round only if they are equal, or 0 and 9. -/
theorem luhnTerm_swap {i a b : Nat} (ha : a < 10) (hb : b < 10)
    (h : (luhnTerm i a + luhnTerm (i + 1) b) % 10 = (luhnTerm i b + luhnTerm (i + 1) a) % 10) :
    a = b ∨ a = 0 ∧ b = 9 ∨ a = 9 ∧ b = 0 := by
  have hall : ∀ a < 10, ∀ b < 10, (luhnTerm 0 a + luhnTerm 1 b) % 10 = (luhnTerm 0 b + luhnTerm 1 a) % 10 →
      a = b ∨ a = 0 ∧ b = 9 ∨ a = 9 ∧ b = 0 := by decide
  rw [← luhnTerm_mod i a, ← luhnTerm_mod i b, ← luhnTerm_mod (i + 1) a, ← luhnTerm_mod (i + 1) b] at h
  rcases Nat.mod_two_eq_zero_or_one i with hi | hi
  · have hnext : (i + 1) % 2 = 1 := by omega
    rw [hi, hnext] at h
    exact hall a ha b hb h
  · have hnext : (i + 1) % 2 = 0 := by omega
    rw [hi, hnext, Nat.add_comm, Nat.add_comm (luhnTerm 1 b)] at h
    exact hall a ha b hb h.symm

/-! ### Changed numbers -/

section
variable {s s' : Str}

/-- The digits of the text are ASCII digits. -/
def AsciiDigits (s : Str) : Prop := ∀ c ∈ s, isdigit c = true → c.isDigit = true

theorem AsciiDigits.countable (h : AsciiDigits s) : ∀ c ∈ s, Countable c := fun c hc hdigit =>
  (asciiDigit (h c hc hdigit)).1

theorem AsciiDigits.mem_digits (h : AsciiDigits s) {c : Char} (hc : c ∈ digits s) : c.isDigit = true := by
  obtain ⟨hmem, hdigit⟩ := List.mem_filter.mp hc
  exact h c hmem hdigit

theorem asciiDigits_of_digits (h : ∀ c ∈ digits s, c.isDigit = true) : AsciiDigits s := fun c hc hdigit =>
  h c (List.mem_filter.mpr ⟨hc, hdigit⟩)

theorem accepted_iff (h : AsciiDigits s) :
    luhn s = some true ↔ 13 ≤ (digits s).length ∧ (digits s).length ≤ 19 ∧ luhnSum 0 s % 10 = 0 := by
  rw [luhn_eq h.countable, Option.some.injEq, decide_eq_true_eq]

theorem rejected_iff (h : AsciiDigits s) : luhn s = some false ↔ luhn s ≠ some true := by
  rw [luhn_eq h.countable]
  simp

theorem digitValues_append {u v : Str} (h : digits s = u ++ v) :
    digitValues s = (v.map digitValue).reverse ++ (u.map digitValue).reverse := by
  rw [digitValues, h, List.map_append, List.reverse_append]

/-- The sum of a number with a digit replaced. -/
theorem luhnSum_replace {u v : Str} {c c' : Char} (h : digits s = u ++ c :: v) (h' : digits s' = u ++ c' :: v) :
    luhnSum 0 s + luhnTerm v.length (digitValue c') = luhnSum 0 s' + luhnTerm v.length (digitValue c) := by
  have hsum := total_replace luhnTerm 0 (v.map digitValue).reverse (u.map digitValue).reverse (digitValue c) (digitValue c')
  simp only [List.length_reverse, List.length_map, Nat.zero_add] at hsum
  rw [luhnSum, luhnSum, digitValues_append h, digitValues_append h', List.map_cons, List.map_cons, List.reverse_cons,
    List.reverse_cons, List.append_assoc, List.append_assoc]
  exact hsum

/-- The sum of a number with two neighbours swapped. -/
theorem luhnSum_swap {u v : Str} {c d : Char} (h : digits s = u ++ c :: d :: v) (h' : digits s' = u ++ d :: c :: v) :
    luhnSum 0 s + (luhnTerm v.length (digitValue c) + luhnTerm (v.length + 1) (digitValue d)) =
      luhnSum 0 s' + (luhnTerm v.length (digitValue d) + luhnTerm (v.length + 1) (digitValue c)) := by
  have hsum := total_swap luhnTerm 0 (v.map digitValue).reverse (u.map digitValue).reverse (digitValue d) (digitValue c)
  simp only [List.length_reverse, List.length_map, Nat.zero_add] at hsum
  rw [luhnSum, luhnSum, digitValues_append h, digitValues_append h']
  simpa using hsum

theorem digits_snoc {c : Char} (hc : c.isDigit = true) : digits (s ++ [c]) = digits s ++ [c] := by
  rw [digits, List.filter_append, List.filter_cons_of_pos (asciiDigit hc).2.1]
  rfl

theorem luhnSum_snoc {c : Char} (hc : c.isDigit = true) : luhnSum 0 (s ++ [c]) = digitValue c + luhnSum 1 s := by
  rw [luhnSum, digitValues_append (digits_snoc hc)]
  rfl

theorem luhn_congr (h : AsciiDigits s) (hdigits : digits s' = digits s) : luhn s' = luhn s := by
  have h' : AsciiDigits s' := asciiDigits_of_digits fun c hc => h.mem_digits (hdigits ▸ hc)
  rw [luhn_eq h.countable, luhn_eq h'.countable, luhnSum, luhnSum, digitValues, digitValues, hdigits]

/-- A number is not accepted if its sum differs from that of an accepted one. -/
theorem rejected_of_sum (h : luhn s = some true) (ascii : AsciiDigits s) (hdigits : ∀ c ∈ digits s', c.isDigit = true)
    (hsum : luhnSum 0 s % 10 = 0 → luhnSum 0 s' % 10 ≠ 0) : luhn s' = some false := by
  have ascii' : AsciiDigits s' := asciiDigits_of_digits hdigits
  obtain ⟨-, -, hzero⟩ := (accepted_iff ascii).mp h
  exact (rejected_iff ascii').mpr fun h' => hsum hzero ((accepted_iff ascii').mp h').2.2

/-- A payload of a fitting length is accepted with the check digit behind it, and with no other digit. -/
theorem accepted_snoc_iff (ascii : AsciiDigits s) (hmin : 12 ≤ (digits s).length) (hmax : (digits s).length ≤ 18) {c : Char}
    (hc : c.isDigit = true) :
    luhn (s ++ [c]) = some true ↔ digitValue c = (10 - luhnSum 1 s % 10) % 10 := by
  have hsnoc := digits_snoc (s := s) hc
  have hascii : AsciiDigits (s ++ [c]) := by
    refine asciiDigits_of_digits fun d hd => ?_
    rw [hsnoc, List.mem_append, List.mem_singleton] at hd
    rcases hd with hd | rfl
    · exact ascii.mem_digits hd
    · exact hc
  rw [accepted_iff hascii, hsnoc, List.length_append, List.length_singleton, luhnSum_snoc hc]
  have hlt := (asciiDigit hc).2.2
  constructor
  · rintro ⟨-, -, hzero⟩
    omega
  · intro hvalue
    omega

theorem rejected_of_replace (ascii : AsciiDigits s) (haccepted : luhn s = some true) {u v : Str} {c c' : Char}
    (hsplit : digits s = u ++ c :: v) (hsplit' : digits s' = u ++ c' :: v) (hc' : c'.isDigit = true) (hne : c' ≠ c) :
    luhn s' = some false := by
  have hdigit : ∀ x ∈ u ++ c :: v, x.isDigit = true := fun x hx => ascii.mem_digits (hsplit ▸ hx)
  refine rejected_of_sum haccepted ascii ?_ fun hzero hzero' => hne ?_
  · intro x hx
    rw [hsplit'] at hx
    rcases List.mem_append.mp hx with hx | hx
    · exact hdigit x (List.mem_append_left _ hx)
    rcases List.mem_cons.mp hx with rfl | hx
    · exact hc'
    · exact hdigit x (List.mem_append_right _ (List.mem_cons_of_mem _ hx))
  · have hc : c.isDigit = true := hdigit c (by simp)
    have hsum := luhnSum_replace hsplit hsplit'
    have hterm : luhnTerm v.length (digitValue c') % 10 = luhnTerm v.length (digitValue c) % 10 := by omega
    exact eq_of_digitValue_eq hc' hc (luhnTerm_inj (asciiDigit hc').2.2 (asciiDigit hc).2.2 hterm)

theorem rejected_of_swap (ascii : AsciiDigits s) (haccepted : luhn s = some true) {u v : Str} {c d : Char}
    (hsplit : digits s = u ++ c :: d :: v) (hsplit' : digits s' = u ++ d :: c :: v) (hne : c ≠ d)
    (h09 : ¬ (c = '0' ∧ d = '9')) (h90 : ¬ (c = '9' ∧ d = '0')) : luhn s' = some false := by
  have hdigit : ∀ x ∈ u ++ c :: d :: v, x.isDigit = true := fun x hx => ascii.mem_digits (hsplit ▸ hx)
  have hc : c.isDigit = true := hdigit c (by simp)
  have hd : d.isDigit = true := hdigit d (by simp)
  refine rejected_of_sum haccepted ascii ?_ fun hzero hzero' => ?_
  · intro x hx
    rw [hsplit'] at hx
    exact hdigit x (((List.Perm.swap d c v).append_left u).mem_iff.mpr hx)
  · have hsum := luhnSum_swap hsplit hsplit'
    have hterm : (luhnTerm v.length (digitValue c) + luhnTerm (v.length + 1) (digitValue d)) % 10 =
        (luhnTerm v.length (digitValue d) + luhnTerm (v.length + 1) (digitValue c)) % 10 := by omega
    rcases luhnTerm_swap (asciiDigit hc).2.2 (asciiDigit hd).2.2 hterm with h | ⟨hc0, hd9⟩ | ⟨hc9, hd0⟩
    · exact hne (eq_of_digitValue_eq hc hd h)
    · exact h09 ⟨eq_of_digitValue_eq hc rfl hc0, eq_of_digitValue_eq hd rfl hd9⟩
    · exact h90 ⟨eq_of_digitValue_eq hc rfl hc9, eq_of_digitValue_eq hd rfl hd0⟩

/-- For a text whose digits are ASCII digits: the check sees its digits only; a payload has one check digit; and an
    accepted number is rejected with one digit replaced, or with two neighbours swapped that are not 0 and 9. -/
theorem luhn_laws (s : Str) (ascii : AsciiDigits s) :
    (∃ ok, luhn s = some ok ∧ ∀ s', digits s' = digits s → luhn s' = some ok) ∧
      (12 ≤ (digits s).length → (digits s).length ≤ 18 →
        ∃ c : Char, c.isDigit = true ∧ digitValue c = (10 - luhnSum 1 s % 10) % 10 ∧
          ∀ c' : Char, c'.isDigit = true → (luhn (s ++ [c']) = some true ↔ c' = c)) ∧
      (luhn s = some true → ∀ u c v, digits s = u ++ c :: v → ∀ c' : Char, c'.isDigit = true → c' ≠ c →
        ∀ s', digits s' = u ++ c' :: v → luhn s' = some false) ∧
      (luhn s = some true → ∀ u c d v, digits s = u ++ c :: d :: v → c ≠ d → ¬ (c = '0' ∧ d = '9') →
        ¬ (c = '9' ∧ d = '0') → ∀ s', digits s' = u ++ d :: c :: v → luhn s' = some false) := by
  refine ⟨?_, ?_, ?_, ?_⟩
  · exact ⟨_, luhn_eq ascii.countable, fun s' h => (luhn_congr ascii h).trans (luhn_eq ascii.countable)⟩
  · intro hmin hmax
    obtain ⟨c, hc, hvalue⟩ := exists_digit (n := (10 - luhnSum 1 s % 10) % 10) (Nat.mod_lt _ (by decide))
    refine ⟨c, hc, hvalue, fun c' hc' => ?_⟩
    rw [accepted_snoc_iff ascii hmin hmax hc', ← hvalue]
    exact ⟨eq_of_digitValue_eq hc' hc, congrArg digitValue⟩
  · intro haccepted u c v hsplit c' hc' hne s' hsplit'
    exact rejected_of_replace ascii haccepted hsplit hsplit' hc' hne
  · intro haccepted u c d v hsplit hne h09 h90 s' hsplit'
    exact rejected_of_swap ascii haccepted hsplit hsplit' hne h09 h90

end

def card : Str := "4111 1111 1111 1111".toList

theorem asciiDigits_card : AsciiDigits card := by
  intro c hc hdigit
  have hall : card.all (fun c => !isdigit c || c.isDigit) = true := by decide +kernel
  simpa [hdigit] using List.all_eq_true.mp hall c hc

theorem luhn_laws_card : luhn card = some true ∧
    (∃ ok, luhn card = some ok ∧ ∀ s', digits s' = digits card → luhn s' = some ok) ∧
      (12 ≤ (digits card).length → (digits card).length ≤ 18 →
        ∃ c : Char, c.isDigit = true ∧ digitValue c = (10 - luhnSum 1 card % 10) % 10 ∧
          ∀ c' : Char, c'.isDigit = true → (luhn (card ++ [c']) = some true ↔ c' = c)) ∧
      (luhn card = some true → ∀ u c v, digits card = u ++ c :: v → ∀ c' : Char, c'.isDigit = true → c' ≠ c →
        ∀ s', digits s' = u ++ c' :: v → luhn s' = some false) ∧
      (luhn card = some true → ∀ u c d v, digits card = u ++ c :: d :: v → c ≠ d → ¬ (c = '0' ∧ d = '9') →
        ¬ (c = '9' ∧ d = '0') → ∀ s', digits s' = u ++ d :: c :: v → luhn s' = some false) :=
  ⟨by decide +kernel, luhn_laws card asciiDigits_card⟩

end PiiProxy
