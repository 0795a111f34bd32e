import PiiProxy.Lib.OrderedDict

/-! # JSON texts

Values and their texts, as Python's `json` module writes and reads them. Of what is read, nothing depends on the fuel of
the reader or on what comes later, and so nothing shorter than the text of an object is a text. -/

namespace JsonText

/-- A number is its literal, and the keys of an object that is read are distinct. -/
inductive Value where
  | null
  | bool (b : Bool)
  | number (literal : List Char)
  | str (s : List Char)
  | arr (items : List Value)
  | obj (fields : List (List Char × Value))

/-! ### Numbers and words -/

/-- How much of a number has been read. -/
inductive Numeral where
  | start
  | minus
  | zero
  | int
  | point
  | frac
  | mark
  | sign
  | exp
  deriving DecidableEq

namespace Numeral

def next (q : Numeral) (c : Char) : Option Numeral :=
  if c.isDigit then
    match q with
    | start | minus => some (if c = '0' then zero else int)
    | zero => none
    | int => some int
    | point | frac => some frac
    | mark | sign | exp => some exp
  else if c = '-' then
    match q with
    | start => some minus
    | mark => some sign
    | _ => none
  else if c = '+' then
    match q with
    | mark => some sign
    | _ => none
  else if c = '.' then
    match q with
    | zero | int => some point
    | _ => none
  else if c = 'e' ∨ c = 'E' then
    match q with
    | zero | int | frac => some mark
    | _ => none
  else none

def complete : Numeral → Bool
  | zero | int | frac | exp => true
  | _ => false

end Numeral

def isNumeral (literal : List Char) : Bool := (literal.foldlM Numeral.next .start).any Numeral.complete

/-- The words, of which the last three are no JSON but read all the same. -/
def words : List (List Char × Value) := [
  ("null".toList, .null),
  ("true".toList, .bool true),
  ("false".toList, .bool false),
  ("NaN".toList, .number "NaN".toList),
  ("Infinity".toList, .number "Infinity".toList),
  ("-Infinity".toList, .number "-Infinity".toList)]

def isAtomChar (c : Char) : Bool := c.isAlphanum || c == '+' || c == '-' || c == '.'

/-- A word or a number ends where a character comes that neither has: what follows either of them in a text is a
    delimiter. -/
def atom (s : List Char) : Option (Value × List Char) :=
  let literal := s.takeWhile isAtomChar
  match words.lookup literal with
  | some v => some (v, s.dropWhile isAtomChar)
  | none => if isNumeral literal then some (.number literal, s.dropWhile isAtomChar) else none

/-! ### Strings -/

def shortEscapes : List (Char × Char) :=
  [('\\', '\\'), ('"', '"'), ('\x08', 'b'), ('\x0c', 'f'), ('\n', 'n'), ('\r', 'r'), ('\t', 't')]

def unescapes : List (Char × Char) :=
  [('"', '"'), ('\\', '\\'), ('/', '/'), ('b', '\x08'), ('f', '\x0c'), ('n', '\n'), ('r', '\r'), ('t', '\t')]

def hexDigits (u : Nat) : List Char :=
  [Nat.digitChar (u / 4096 % 16), Nat.digitChar (u / 256 % 16), Nat.digitChar (u / 16 % 16), Nat.digitChar (u % 16)]

/-- `\uXXXX` for a code unit. -/
def unitEscape (u : Nat) : List Char := '\\' :: 'u' :: hexDigits u

/-- A character beyond the first plane is a pair of surrogates. -/
def unicodeEscape (n : Nat) : List Char :=
  if n < 0x10000 then unitEscape n
  else unitEscape (0xd800 + (n - 0x10000) / 0x400) ++ unitEscape (0xdc00 + (n - 0x10000) % 0x400)

section
variable (ascii : Bool)

def escapeChar (c : Char) : List Char :=
  match shortEscapes.lookup c with
  | some e => ['\\', e]
  | none => if c < ' ' ∨ (ascii = true ∧ '~' < c) then unicodeEscape c.toNat else [c]

def quote (s : List Char) : List Char := '"' :: s.flatMap (escapeChar ascii) ++ ['"']

/-! ### Writing -/

mutual

/-- `json.dumps`; with `ascii`, a character that is none is escaped. -/
def Value.render : Value → List Char
  | .null => "null".toList
  | .bool b => if b then "true".toList else "false".toList
  | .number literal => literal
  | .str s => quote ascii s
  | .arr items => '[' :: renderItems items ++ [']']
  | .obj fields => '\x7b' :: renderFields fields ++ ['\x7d']

def renderItems : List Value → List Char
  | [] => []
  | [v] => v.render
  | v :: w :: vs => v.render ++ ',' :: ' ' :: renderItems (w :: vs)

def renderFields : List (List Char × Value) → List Char
  | [] => []
  | [(k, v)] => quote ascii k ++ ':' :: ' ' :: v.render
  | (k, v) :: f :: fs => quote ascii k ++ ':' :: ' ' :: v.render ++ ',' :: ' ' :: renderFields (f :: fs)

end

end

/-! ### Reading -/

def isWhitespace (c : Char) : Bool := c == ' ' || c == '\t' || c == '\n' || c == '\r'

def skip (s : List Char) : List Char := s.dropWhile isWhitespace

def expect (c : Char) : List Char → Option (List Char)
  | [] => none
  | d :: s => if d = c then some s else none

def hexValue (c : Char) : Option Nat :=
  if c.isDigit then some (c.toNat - 48)
  else if 'a' ≤ c ∧ c ≤ 'f' then some (c.toNat - 87)
  else if 'A' ≤ c ∧ c ≤ 'F' then some (c.toNat - 55)
  else none

def codeUnit : List Char → Option (Nat × List Char)
  | a :: b :: c :: d :: s => do
    let a ← hexValue a
    let b ← hexValue b
    let c ← hexValue c
    let d ← hexValue d
    return (4096 * a + 256 * b + 16 * c + d, s)
  | _ => none

/-- After `\u`. A surrogate without its other half is no character. -/
def unicode (s : List Char) : Option (Char × List Char) := do
  let (u, s) ← codeUnit s
  if 0xd800 ≤ u ∧ u < 0xdc00 then
    let s ← expect 'u' (← expect '\\' s)
    let (low, s) ← codeUnit s
    if 0xdc00 ≤ low ∧ low < 0xe000 then return (Char.ofNat (0x10000 + 0x400 * (u - 0xd800) + (low - 0xdc00)), s)
    else none
  else if 0xdc00 ≤ u ∧ u < 0xe000 then none
  else return (Char.ofNat u, s)

/-- After a backslash. -/
def escape : List Char → Option (Char × List Char)
  | [] => none
  | e :: s => if e = 'u' then unicode s else (unescapes.lookup e).map fun c => (c, s)

/-- The rest of a string, to its quotation mark. -/
def chars : Nat → List Char → Option (List Char × List Char)
  | 0, _ | _ + 1, [] => none
  | n + 1, c :: s =>
    if c = '"' then some ([], s)
    else if c = '\\' then do
      let (c, s) ← escape s
      let (cs, s) ← chars n s
      return (c :: cs, s)
    else if c < ' ' then none
    else do
      let (cs, s) ← chars n s
      return (c :: cs, s)

def string (s : List Char) : Option (List Char × List Char) := chars s.length s

/-- Of two fields with one key, the later one is the value. -/
def dict (fields : List (List Char × Value)) : List (List Char × Value) := (OrderedDict.ofList fields).entries

def token (c : Char) (s : List Char) : Option (List Char) := expect c (skip s)

/-- After a value: whether a comma says that another one comes. -/
def more (close : Char) (s : List Char) : Option (Bool × List Char) :=
  match token close s with
  | some s => some (false, s)
  | none => (token ',' s).map fun s => (true, s)

mutual

/-- The value at the beginning, and what comes after it. -/
def value : Nat → List Char → Option (Value × List Char)
  | 0, _ | _ + 1, [] => none
  | n + 1, c :: s =>
    if c = '"' then do
      let (t, s) ← string s
      return (.str t, s)
    else if c = '[' then
      match token ']' s with
      | some s => some (.arr [], s)
      | none => do
        let (vs, s) ← items n s
        return (.arr vs, s)
    else if c = '\x7b' then
      match token '\x7d' s with
      | some s => some (.obj [], s)
      | none => do
        let (fs, s) ← fields n s
        return (.obj (dict fs), s)
    else atom (c :: s)

/-- One value or more, to the end of an array. -/
def items : Nat → List Char → Option (List Value × List Char)
  | 0, _ => none
  | n + 1, s => do
    let (v, s) ← value n (skip s)
    match ← more ']' s with
    | (false, s) => return ([v], s)
    | (true, s) =>
      let (vs, s) ← items n s
      return (v :: vs, s)

/-- One field or more, to the end of an object. -/
def fields : Nat → List Char → Option (List (List Char × Value) × List Char)
  | 0, _ => none
  | n + 1, s => do
    let (k, s) ← string (← token '"' s)
    let (v, s) ← value n (skip (← token ':' s))
    match ← more '\x7d' s with
    | (false, s) => return ([(k, v)], s)
    | (true, s) =>
      let (fs, s) ← fields n s
      return ((k, v) :: fs, s)

end

/-- `json.loads`. Two steps for a character are enough. -/
def loads (text : List Char) : Option Value :=
  match value (2 * text.length) (skip text) with
  | some (v, rest) => if skip rest = [] then some v else none
  | none => none

example : (loads "[1, \"\\ud83d\\ude00\"]".toList).map (·.render false) = some "[1, \"😀\"]".toList := by
  decide +kernel

/-! ### Each reader leaves a rest -/

theorem skip_append {s : List Char} (hne : skip s ≠ []) (t : List Char) : skip (s ++ t) = skip s ++ t := by
  rw [skip, List.dropWhile_append, if_neg]
  · rfl
  · rw [List.isEmpty_iff]
    exact hne

theorem length_skip_le (s : List Char) : (skip s).length ≤ s.length := (List.dropWhile_sublist _).length_le

theorem expect_eq_some {c : Char} {s r : List Char} : expect c s = some r ↔ s = c :: r := by
  cases s with
  | nil => simp [expect]
  | cons d s => simp [expect]

theorem token_spec {c : Char} {s r : List Char} (h : token c s = some r) :
    r.length < s.length ∧ ∀ t, token c (s ++ t) = some (r ++ t) := by
  have hskip : skip s = c :: r := expect_eq_some.mp h
  have hlength := length_skip_le s
  rw [hskip, List.length_cons] at hlength
  refine ⟨hlength, fun t => ?_⟩
  rw [token, skip_append (by rw [hskip]; exact List.cons_ne_nil _ _), hskip, expect_eq_some]
  rfl

/-- A token that is not there does not come later, if anything else is. -/
theorem token_append_none {c : Char} {s : List Char} (h : token c s = none) (hne : skip s ≠ []) (t : List Char) :
    token c (s ++ t) = none := by
  rw [token, skip_append hne]
  rw [token] at h
  cases hs : skip s with
  | nil => exact absurd hs hne
  | cons d rest =>
    rw [hs, expect] at h
    rw [List.cons_append, expect]
    split at h
    · cases h
    · rename_i hd
      rw [if_neg hd]

/-- A reader takes at least one character, and nothing that comes later has changed what it reads. -/
def Framed {α : Type} (read : List Char → Option (α × List Char)) : Prop :=
  ∀ s a r, read s = some (a, r) → r.length < s.length ∧ ∀ t, read (s ++ t) = some (a, r ++ t)

theorem framed_codeUnit : Framed codeUnit := by
  intro s u r h
  match s, h with
  | a :: b :: c :: d :: s, h =>
    simp only [codeUnit, Option.bind_eq_bind, Option.bind_eq_some_iff] at h
    obtain ⟨a', ha, b', hb, c', hc, d', hd, h⟩ := h
    cases h
    refine ⟨by simp only [List.length_cons]; omega, fun t => ?_⟩
    simp [codeUnit, ha, hb, hc, hd]

theorem framed_unicode : Framed unicode := by
  intro s c r h
  simp only [unicode, Option.bind_eq_bind, Option.bind_eq_some_iff] at h
  obtain ⟨⟨u, s₁⟩, hunit, h⟩ := h
  obtain ⟨hlength, happend⟩ := framed_codeUnit _ _ _ hunit
  dsimp only at h
  split at h
  · rename_i hhigh
    simp only [Option.bind_eq_some_iff, expect_eq_some] at h
    obtain ⟨s₂, rfl, s₃, rfl, ⟨low, s₄⟩, hlow, h⟩ := h
    obtain ⟨hlength', happend'⟩ := framed_codeUnit _ _ _ hlow
    dsimp only at h
    split at h
    · rename_i hpair
      simp only [Option.pure_def, Option.some.injEq, Prod.mk.injEq] at h
      obtain ⟨rfl, rfl⟩ := h
      refine ⟨by simp only [List.length_cons] at hlength; omega, fun t => ?_⟩
      simp [unicode, happend, happend', hhigh, hpair, expect]
    · cases h
  · rename_i hhigh
    split at h
    · cases h
    · rename_i hlow
      cases h
      exact ⟨hlength, fun t => by simp [unicode, happend, hhigh, hlow]⟩

theorem framed_escape : Framed escape := by
  intro s c r h
  cases s with
  | nil => cases h
  | cons e s =>
    simp only [escape] at h
    split at h
    · rename_i hu
      obtain ⟨hlength, happend⟩ := framed_unicode _ _ _ h
      refine ⟨by simp only [List.length_cons]; omega, fun t => ?_⟩
      rw [List.cons_append, escape, if_pos hu, happend]
    · rename_i hu
      obtain ⟨c', hc, hcr⟩ := Option.map_eq_some_iff.mp h
      cases hcr
      refine ⟨Nat.lt_succ_self _, fun t => ?_⟩
      rw [List.cons_append, escape, if_neg hu, hc]
      rfl

theorem chars_spec {n : Nat} {s cs r : List Char} (h : chars n s = some (cs, r)) :
    r.length < s.length ∧ ∀ m t, s.length ≤ m + r.length → chars m (s ++ t) = some (cs, r ++ t) := by
  induction n generalizing s cs with
  | zero => cases h
  | succ n ih =>
    cases s with
    | nil => cases h
    | cons c s =>
      simp only [chars] at h
      split at h
      · rename_i hquote
        cases h
        refine ⟨Nat.lt_succ_self _, fun m t hm => ?_⟩
        obtain ⟨m, rfl⟩ : ∃ k, m = k + 1 := ⟨m - 1, by simp only [List.length_cons] at hm; omega⟩
        rw [List.cons_append, chars, if_pos hquote]
      · rename_i hquote
        split at h
        · rename_i hbackslash
          simp only [Option.bind_eq_bind, Option.bind_eq_some_iff, Prod.exists, Option.pure_def, Option.some.injEq,
            Prod.mk.injEq] at h
          obtain ⟨c', s₁, hescape, cs', s₂, hchars, rfl, rfl⟩ := h
          obtain ⟨hlength, happend⟩ := framed_escape _ _ _ hescape
          obtain ⟨hlength', happend'⟩ := ih hchars
          refine ⟨by simp only [List.length_cons]; omega, fun m t hm => ?_⟩
          simp only [List.length_cons] at hm
          obtain ⟨m, rfl⟩ : ∃ k, m = k + 1 := ⟨m - 1, by omega⟩
          rw [List.cons_append, chars, if_neg hquote, if_pos hbackslash, happend]
          simp [happend' m t (by omega)]
        · rename_i hbackslash
          split at h
          · cases h
          · rename_i hcontrol
            simp only [Option.bind_eq_bind, Option.bind_eq_some_iff, Prod.exists, Option.pure_def, Option.some.injEq,
              Prod.mk.injEq] at h
            obtain ⟨cs', s₂, hchars, rfl, rfl⟩ := h
            obtain ⟨hlength', happend'⟩ := ih hchars
            refine ⟨by simp only [List.length_cons]; omega, fun m t hm => ?_⟩
            simp only [List.length_cons] at hm
            obtain ⟨m, rfl⟩ : ∃ k, m = k + 1 := ⟨m - 1, by omega⟩
            rw [List.cons_append, chars, if_neg hquote, if_neg hbackslash, if_neg hcontrol]
            simp [happend' m t (by omega)]

theorem framed_string : Framed string := by
  intro s cs r h
  obtain ⟨hlength, happend⟩ := chars_spec h
  exact ⟨hlength, fun t => happend _ t (by simp only [List.length_append]; omega)⟩

theorem atom_ne_nil {s : List Char} {v : Value} {r : List Char} (h : atom s = some (v, r)) : s.takeWhile isAtomChar ≠ [] := by
  intro hnil
  rw [atom, hnil] at h
  cases h

/-- Only an atom can go on, and only where nothing is after it. -/
def Over (s r : List Char) : Prop := r ≠ [] ∨ ∃ c ∈ s.head?, isAtomChar c = false

theorem atom_rest {s : List Char} {v : Value} {r : List Char} (h : atom s = some (v, r)) : r = s.dropWhile isAtomChar := by
  unfold atom at h
  dsimp only at h
  split at h
  · cases h
    rfl
  · split at h
    · cases h
      rfl
    · cases h

theorem atom_spec {s : List Char} {v : Value} {r : List Char} (h : atom s = some (v, r)) :
    r.length < s.length ∧ ∀ t, t = [] ∨ Over s r → atom (s ++ t) = some (v, r ++ t) := by
  have hrest := atom_rest h
  have hsame := List.takeWhile_append_dropWhile (p := isAtomChar) (l := s)
  rw [← hrest] at hsame
  have hlength := congrArg List.length hsame
  rw [List.length_append] at hlength
  have hpos := List.length_pos_iff.mpr (atom_ne_nil h)
  refine ⟨by omega, fun t ht => ?_⟩
  rcases ht with rfl | hover
  · rw [List.append_nil, List.append_nil, h]
  · have hne : r ≠ [] := by
      rcases hover with hne | ⟨c, hc, hdelimiter⟩
      · exact hne
      · cases s with
        | nil => cases hc
        | cons d s =>
          obtain rfl : d = c := Option.some.inj hc
          exact absurd (List.takeWhile_cons_of_neg (by rw [hdelimiter]; exact Bool.false_ne_true)) (atom_ne_nil h)
    have htake : (s ++ t).takeWhile isAtomChar = s.takeWhile isAtomChar := by
      rw [List.takeWhile_append, if_neg]
      intro hall
      exact hne (List.length_eq_zero_iff.mp (by omega))
    have hdrop : (s ++ t).dropWhile isAtomChar = s.dropWhile isAtomChar ++ t := by
      rw [List.dropWhile_append, if_neg]
      rw [List.isEmpty_iff, ← hrest]
      exact hne
    unfold atom at h ⊢
    dsimp only at h ⊢
    rw [htake, hdrop]
    split at h
    · cases h
      rfl
    · split at h
      · rename_i hnumeral
        cases h
        rw [if_pos hnumeral]
      · cases h

theorem framed_more (close : Char) : Framed (more close) := by
  intro s b r h
  unfold more at h
  split at h
  · rename_i hclose
    cases h
    obtain ⟨hlength, happend⟩ := token_spec hclose
    exact ⟨hlength, fun t => by rw [more, happend]⟩
  · rename_i hopen
    obtain ⟨s', hcomma, hs'⟩ := Option.map_eq_some_iff.mp h
    cases hs'
    obtain ⟨hlength, happend⟩ := token_spec hcomma
    refine ⟨hlength, fun t => ?_⟩
    have hne : skip s ≠ [] := by
      rw [expect_eq_some.mp hcomma]
      exact List.cons_ne_nil _ _
    rw [more, token_append_none hopen hne, happend]
    rfl

theorem value_nil (n : Nat) : value n [] = none := by cases n <;> rfl

/-- What is read with some fuel is read with enough of it, whatever comes later. -/
def ValueFrame (n : Nat) : Prop :=
  ∀ s v r, value n s = some (v, r) → r.length < s.length ∧
    ∀ m t, 2 * s.length ≤ m + 2 * r.length → t = [] ∨ Over s r → value m (s ++ t) = some (v, r ++ t)

def ListFrame {α : Type} (read : Nat → List Char → Option (α × List Char)) (n : Nat) : Prop :=
  ∀ s a r, read n s = some (a, r) → skip s ≠ [] ∧ r.length < s.length ∧
    ∀ m t, 2 * s.length < m + 2 * r.length → read m (s ++ t) = some (a, r ++ t)

/-- After some whitespace, and with something after the value. -/
theorem ValueFrame.skip {n : Nat} {s : List Char} {v : Value} {r : List Char} (hframe : ValueFrame n)
    (h : value n (skip s) = some (v, r)) : JsonText.skip s ≠ [] ∧ r.length < s.length ∧
      ∀ m t, 2 * s.length ≤ m + 2 * r.length → r ≠ [] → value m (JsonText.skip (s ++ t)) = some (v, r ++ t) := by
  obtain ⟨hlength, happend⟩ := hframe _ _ _ h
  have hskip := length_skip_le s
  have hne : JsonText.skip s ≠ [] := by
    intro hnil
    rw [hnil, value_nil] at h
    cases h
  refine ⟨hne, by omega, fun m t hm hr => ?_⟩
  rw [skip_append hne]
  exact happend m t (by omega) (Or.inr (Or.inl hr))

theorem value_frame {n : Nat} (hitems : ListFrame items n) (hfields : ListFrame fields n) : ValueFrame (n + 1) := by
  intro s v r h
  cases s with
  | nil => cases h
  | cons c s =>
    simp only [value, List.length_cons, List.cons_append] at h ⊢
    split at h
    · rename_i hquote
      simp only [Option.bind_eq_bind, Option.bind_eq_some_iff, Prod.exists] at h
      obtain ⟨cs, s₁, hstring, h⟩ := h
      cases h
      obtain ⟨hlength, happend⟩ := framed_string _ _ _ hstring
      refine ⟨by omega, fun m t hm _ => ?_⟩
      obtain ⟨m, rfl⟩ : ∃ k, m = k + 1 := ⟨m - 1, by omega⟩
      rw [value, if_pos hquote, happend]
      rfl
    · rename_i hquote
      split at h
      · rename_i hbracket
        split at h
        · rename_i s₁ hclose
          cases h
          obtain ⟨hlength, happend⟩ := token_spec hclose
          refine ⟨by omega, fun m t hm _ => ?_⟩
          obtain ⟨m, rfl⟩ : ∃ k, m = k + 1 := ⟨m - 1, by omega⟩
          rw [value, if_neg hquote, if_pos hbracket, happend]
        · rename_i hopen
          simp only [Option.bind_eq_bind, Option.bind_eq_some_iff, Prod.exists] at h
          obtain ⟨vs, s₁, hvs, h⟩ := h
          cases h
          obtain ⟨hne, hlength, happend⟩ := hitems _ _ _ hvs
          refine ⟨by omega, fun m t hm _ => ?_⟩
          obtain ⟨m, rfl⟩ : ∃ k, m = k + 1 := ⟨m - 1, by omega⟩
          rw [value, if_neg hquote, if_pos hbracket, token_append_none hopen hne]
          simp [happend m t (by omega)]
      · rename_i hbracket
        split at h
        · rename_i hbrace
          split at h
          · rename_i s₁ hclose
            cases h
            obtain ⟨hlength, happend⟩ := token_spec hclose
            refine ⟨by omega, fun m t hm _ => ?_⟩
            obtain ⟨m, rfl⟩ : ∃ k, m = k + 1 := ⟨m - 1, by omega⟩
            rw [value, if_neg hquote, if_neg hbracket, if_pos hbrace, happend]
          · rename_i hopen
            simp only [Option.bind_eq_bind, Option.bind_eq_some_iff, Prod.exists] at h
            obtain ⟨fs, s₁, hfs, h⟩ := h
            cases h
            obtain ⟨hne, hlength, happend⟩ := hfields _ _ _ hfs
            refine ⟨by omega, fun m t hm _ => ?_⟩
            obtain ⟨m, rfl⟩ : ∃ k, m = k + 1 := ⟨m - 1, by omega⟩
            rw [value, if_neg hquote, if_neg hbracket, if_pos hbrace, token_append_none hopen hne]
            simp [happend m t (by omega)]
        · rename_i hbrace
          obtain ⟨hlength, happend⟩ := atom_spec h
          refine ⟨hlength, fun m t hm ht => ?_⟩
          rw [List.length_cons] at hlength
          obtain ⟨m, rfl⟩ : ∃ k, m = k + 1 := ⟨m - 1, by omega⟩
          rw [value, if_neg hquote, if_neg hbracket, if_neg hbrace, ← List.cons_append]
          exact happend t ht

theorem items_frame {n : Nat} (hvalue : ValueFrame n) (hitems : ListFrame items n) : ListFrame items (n + 1) := by
  intro s vs r h
  simp only [items, Option.bind_eq_bind, Option.bind_eq_some_iff, Prod.exists] at h
  obtain ⟨v, s₁, hv, b, s₂, hmore, h⟩ := h
  obtain ⟨hne, hlength₁, happend₁⟩ := hvalue.skip hv
  obtain ⟨hlength₂, happend₂⟩ := framed_more _ _ _ _ hmore
  have hs₁ : s₁ ≠ [] := List.ne_nil_of_length_pos (by omega)
  cases b with
  | false =>
    cases h
    refine ⟨hne, by omega, fun m t hm => ?_⟩
    obtain ⟨m, rfl⟩ : ∃ k, m = k + 1 := ⟨m - 1, by omega⟩
    rw [items, happend₁ m t (by omega) hs₁]
    simp [happend₂]
  | true =>
    simp only [Option.bind_eq_some_iff, Prod.exists] at h
    obtain ⟨vs', s₃, hvs, h⟩ := h
    cases h
    obtain ⟨-, hlength₃, happend₃⟩ := hitems _ _ _ hvs
    refine ⟨hne, by omega, fun m t hm => ?_⟩
    obtain ⟨m, rfl⟩ : ∃ k, m = k + 1 := ⟨m - 1, by omega⟩
    rw [items, happend₁ m t (by omega) hs₁]
    simp [happend₂, happend₃ m t (by omega)]

theorem fields_frame {n : Nat} (hvalue : ValueFrame n) (hfields : ListFrame fields n) : ListFrame fields (n + 1) := by
  intro s fs r h
  simp only [fields, Option.bind_eq_bind, Option.bind_eq_some_iff, Prod.exists] at h
  obtain ⟨s₁, hopen, k, s₂, hkey, s₃, hcolon, v, s₄, hv, b, s₅, hmore, h⟩ := h
  obtain ⟨hlength₁, happend₁⟩ := token_spec hopen
  obtain ⟨hlength₂, happend₂⟩ := framed_string _ _ _ hkey
  obtain ⟨hlength₃, happend₃⟩ := token_spec hcolon
  obtain ⟨-, hlength₄, happend₄⟩ := hvalue.skip hv
  obtain ⟨hlength₅, happend₅⟩ := framed_more _ _ _ _ hmore
  have hs₄ : s₄ ≠ [] := List.ne_nil_of_length_pos (by omega)
  have hne : skip s ≠ [] := by
    rw [expect_eq_some.mp hopen]
    exact List.cons_ne_nil _ _
  cases b with
  | false =>
    cases h
    refine ⟨hne, by omega, fun m t hm => ?_⟩
    obtain ⟨m, rfl⟩ : ∃ k, m = k + 1 := ⟨m - 1, by omega⟩
    rw [fields]
    simp [happend₁, happend₂, happend₃, happend₄ m t (by omega) hs₄, happend₅]
  | true =>
    simp only [Option.bind_eq_some_iff, Prod.exists] at h
    obtain ⟨fs', s₆, hfs, h⟩ := h
    cases h
    obtain ⟨-, hlength₆, happend₆⟩ := hfields _ _ _ hfs
    refine ⟨hne, by omega, fun m t hm => ?_⟩
    obtain ⟨m, rfl⟩ : ∃ k, m = k + 1 := ⟨m - 1, by omega⟩
    rw [fields]
    simp [happend₁, happend₂, happend₃, happend₄ m t (by omega) hs₄, happend₅, happend₆ m t (by omega)]

theorem frames (n : Nat) : ValueFrame n ∧ ListFrame items n ∧ ListFrame fields n := by
  induction n with
  | zero =>
    refine ⟨fun s v r h => ?_, fun s vs r h => ?_, fun s fs r h => ?_⟩
    · cases s <;> cases h
    · cases h
    · cases h
  | succ n ih =>
    obtain ⟨hvalue, hitems, hfields⟩ := ih
    exact ⟨value_frame hitems hfields, items_frame hvalue hitems, fields_frame hvalue hfields⟩

/-- The fuel of `loads` is enough for all that any fuel reads. -/
theorem loads_eq_some {text : List Char} {v : Value} :
    loads text = some v ↔ ∃ n r, value n (skip text) = some (v, r) ∧ skip r = [] := by
  rw [loads]
  constructor
  · intro h
    split at h
    · rename_i v' r hvalue
      split at h
      · rename_i hrest
        cases h
        exact ⟨_, r, hvalue, hrest⟩
      · cases h
    · cases h
  · intro h
    obtain ⟨n, r, hvalue, hrest⟩ := h
    obtain ⟨-, happend⟩ := (frames n).1 _ _ _ hvalue
    have hskip := length_skip_le text
    have henough := happend (2 * text.length) [] (by omega) (Or.inl rfl)
    rw [List.append_nil, List.append_nil] at henough
    rw [henough]
    dsimp only
    rw [if_pos hrest]

/-- Nothing shorter than the text of an object, an array or a string is a text. -/
theorem loads_proper_prefix {n : Nat} {c : Char} {s p : List Char} {v : Value} (h : value n (c :: s) = some (v, []))
    (hdelimiter : isAtomChar c = false) (hblank : isWhitespace c = false) (hstarts : p <+: c :: s) (hne : p ≠ c :: s) :
    loads p = none := by
  obtain ⟨t, ht⟩ := hstarts
  have htail : t ≠ [] := by
    rintro rfl
    exact hne (by rw [← ht, List.append_nil])
  cases hloads : loads p with
  | none => rfl
  | some v' =>
    obtain ⟨k, r, hvalue, -⟩ := loads_eq_some.mp hloads
    cases p with
    | nil =>
      rw [skip, List.dropWhile_nil, value_nil] at hvalue
      cases hvalue
    | cons d p =>
      obtain ⟨rfl, -⟩ := List.cons.inj ht
      rw [skip, List.dropWhile_cons_of_neg (by rw [hblank]; exact Bool.false_ne_true)] at hvalue
      have hlonger := ((frames k).1 _ _ _ hvalue).2 (2 * (d :: s).length) t (by
        have := congrArg List.length ht
        simp only [List.length_append, List.length_cons] at this ⊢
        omega) (Or.inr (Or.inr ⟨d, rfl, hdelimiter⟩))
      have hwhole := ((frames n).1 _ _ _ h).2 (2 * (d :: s).length) [] (by simp) (Or.inl rfl)
      rw [ht] at hlonger
      rw [List.append_nil, hlonger] at hwhole
      have hrest : r ++ t = [] := congrArg Prod.snd (Option.some.inj hwhole)
      exact absurd (List.append_eq_nil_iff.mp hrest).2 htail

end JsonText
