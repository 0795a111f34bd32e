import PiiProxy.Lib.JsonText

/-! # What is written is read

The text of a value is read as the value, wherever it stands, and has printable characters only. -/

namespace JsonText

/-- What `dumps` is called with: numbers have literals, and no key of a dictionary stands twice. -/
inductive Sound : Value → Prop
  | null : Sound .null
  | bool (b : Bool) : Sound (.bool b)
  | number {literal : List Char} (h : isNumeral literal = true) : Sound (.number literal)
  | str (s : List Char) : Sound (.str s)
  | arr {items : List Value} (h : ∀ v ∈ items, Sound v) : Sound (.arr items)
  | obj {fields : List (List Char × Value)} (hkeys : (fields.map Prod.fst).Nodup) (h : ∀ f ∈ fields, Sound f.2) :
    Sound (.obj fields)

theorem hexValue_digitChar : ∀ d < 16, hexValue (Nat.digitChar d) = some d := by decide

theorem codeUnit_hexDigits {u : Nat} (hu : u < 0x10000) (s : List Char) : codeUnit (hexDigits u ++ s) = some (u, s) := by
  have hdigit : ∀ k, hexValue (Nat.digitChar (k % 16)) = some (k % 16) := fun k =>
    hexValue_digitChar _ (Nat.mod_lt k (by decide))
  simp only [hexDigits, List.cons_append, List.nil_append, codeUnit, hdigit, Option.bind_eq_bind, Option.bind_some,
    Option.pure_def, Option.some.injEq, Prod.mk.injEq, and_true]
  omega

theorem unitEscape_append (u : Nat) (s : List Char) : unitEscape u ++ s = '\\' :: 'u' :: (hexDigits u ++ s) := rfl

theorem unicode_unit {u : Nat} (hu : u < 0xd800 ∨ 0xe000 ≤ u) (hplane : u < 0x10000) (s : List Char) :
    unicode (hexDigits u ++ s) = some (Char.ofNat u, s) := by
  rw [unicode, codeUnit_hexDigits hplane]
  simp only [Option.bind_eq_bind, Option.bind_some]
  rw [if_neg (by omega), if_neg (by omega)]
  rfl

theorem unicode_pair {high low : Nat} (hhigh : high < 0x400) (hlow : low < 0x400) (s : List Char) :
    unicode (hexDigits (0xd800 + high) ++ (unitEscape (0xdc00 + low) ++ s)) =
      some (Char.ofNat (0x10000 + 0x400 * high + low), s) := by
  rw [unicode, codeUnit_hexDigits (by omega), unitEscape_append]
  simp only [Option.bind_eq_bind, Option.bind_some]
  rw [if_pos (by omega)]
  simp only [expect, if_true, Option.bind_some]
  rw [codeUnit_hexDigits (by omega)]
  simp only [Option.bind_some]
  rw [if_pos (by omega), Nat.add_sub_cancel_left, Nat.add_sub_cancel_left]
  rfl

/-- A code unit that is no surrogate, or two that make a pair. -/
theorem escape_unicodeEscape (c : Char) : ∃ tail, unicodeEscape c.toNat = '\\' :: tail ∧
    ∀ s, escape (tail ++ s) = some (c, s) := by
  have hvalid : c.toNat < 0xd800 ∨ (0xdfff < c.toNat ∧ c.toNat < 0x110000) := c.valid
  have hof : Char.ofNat c.toNat = c := Char.ofNat_toNat c
  generalize c.toNat = n at hvalid hof
  unfold unicodeEscape
  split
  · rename_i hplane
    refine ⟨'u' :: hexDigits n, by rw [unitEscape], fun s => ?_⟩
    rw [List.cons_append, escape, if_pos rfl, unicode_unit (by omega) hplane, hof]
  · rename_i hplane
    have hhigh : (n - 0x10000) / 0x400 < 0x400 := by omega
    have hlow : (n - 0x10000) % 0x400 < 0x400 := Nat.mod_lt _ (by omega)
    have hsum : 0x10000 + 0x400 * ((n - 0x10000) / 0x400) + (n - 0x10000) % 0x400 = n := by omega
    generalize (n - 0x10000) / 0x400 = high at hhigh hsum
    generalize (n - 0x10000) % 0x400 = low at hlow hsum
    refine ⟨'u' :: (hexDigits (0xd800 + high) ++ unitEscape (0xdc00 + low)), unitEscape_append _ _, fun s => ?_⟩
    rw [List.cons_append, escape, if_pos rfl, List.append_assoc, unicode_pair hhigh hlow, hsum, hof]

theorem mem_of_lookup {α β : Type} [BEq α] [LawfulBEq α] {a : α} {b : β} {table : List (α × β)}
    (h : table.lookup a = some b) : (a, b) ∈ table := by
  obtain ⟨before, after, heq, -⟩ := List.lookup_eq_some_iff.mp h
  rw [heq]
  exact List.mem_append_right _ (List.mem_cons_self ..)

theorem unescapes_of_short {c e : Char} (h : shortEscapes.lookup c = some e) :
    e ≠ 'u' ∧ unescapes.lookup e = some c := by
  have htable : ∀ p ∈ shortEscapes, p.2 ≠ 'u' ∧ unescapes.lookup p.2 = some p.1 := by decide
  exact htable (c, e) (mem_of_lookup h)

theorem chars_escapeChar (ascii : Bool) {n : Nat} {s cs r : List Char} (c : Char) (h : chars n s = some (cs, r)) :
    chars (n + 1) (escapeChar ascii c ++ s) = some (c :: cs, r) := by
  have hescaped : ∀ tail, (∀ s, escape (tail ++ s) = some (c, s)) →
      chars (n + 1) ('\\' :: tail ++ s) = some (c :: cs, r) := by
    intro tail htail
    rw [List.cons_append, chars, if_neg (by decide), if_pos rfl, htail]
    simp [h]
  unfold escapeChar
  split
  · rename_i e he
    obtain ⟨hu, hback⟩ := unescapes_of_short he
    refine hescaped [e] fun s => ?_
    rw [List.cons_append, escape, if_neg hu, hback]
    rfl
  · rename_i hshort
    split
    · obtain ⟨tail, htail, hback⟩ := escape_unicodeEscape c
      rw [htail]
      exact hescaped tail hback
    · rename_i hplain
      have hquote : c ≠ '"' := by
        rintro rfl
        cases hshort
      have hbackslash : c ≠ '\\' := by
        rintro rfl
        cases hshort
      rw [List.cons_append, List.nil_append, chars, if_neg hquote, if_neg hbackslash, if_neg fun hlt => hplain (Or.inl hlt)]
      simp [h]

theorem string_quote (ascii : Bool) (s r : List Char) : string (s.flatMap (escapeChar ascii) ++ '"' :: r) = some (s, r) := by
  have hchars : chars (s.length + 1) (s.flatMap (escapeChar ascii) ++ '"' :: r) = some (s, r) := by
    induction s with
    | nil => rfl
    | cons c s ih =>
      rw [List.flatMap_cons, List.append_assoc]
      exact chars_escapeChar ascii c ih
  obtain ⟨-, happend⟩ := chars_spec hchars
  have henough := happend _ [] (Nat.le_add_right _ r.length)
  rwa [List.append_nil, List.append_nil] at henough

theorem isAtomChar_of_next {q q' : Numeral} {c : Char} (h : q.next c = some q') : isAtomChar c = true := by
  unfold Numeral.next at h
  split at h
  · rename_i hdigit
    simp [isAtomChar, Char.isAlphanum, hdigit]
  · split at h
    · rename_i heq
      rw [heq]
      rfl
    · split at h
      · rename_i heq
        rw [heq]
        rfl
      · split at h
        · rename_i heq
          rw [heq]
          rfl
        · split at h
          · rename_i heq
            rcases heq with heq | heq
            · rw [heq]
              rfl
            · rw [heq]
              rfl
          · cases h

theorem isAtomChar_of_numeral {literal : List Char} (h : isNumeral literal = true) : ∀ c ∈ literal, isAtomChar c = true := by
  obtain ⟨q, hq, -⟩ := (Option.any_eq_true _ _).mp h
  clear h
  revert hq
  generalize Numeral.start = q₀
  intro hq c hc
  induction literal generalizing q₀ with
  | nil => cases hc
  | cons d literal ih =>
    obtain ⟨q₁, hnext, hrest⟩ := Option.bind_eq_some_iff.mp hq
    rcases List.mem_cons.mp hc with rfl | hmem
    · exact isAtomChar_of_next hnext
    · exact ih q₁ hrest hmem

theorem isNumeral_toDigits (n : Nat) : isNumeral (Nat.toDigits 10 n) = true := by
  have hread : ∀ n, (Nat.toDigits 10 n).foldlM Numeral.next .start = some (if n = 0 then .zero else .int) := by
    intro n
    induction n using Nat.strongRecOn with
    | ind n ih =>
      rw [Nat.toDigits_eq_if (by decide)]
      split
      · rename_i hsmall
        have htable : ∀ d < 10, [Nat.digitChar d].foldlM Numeral.next .start = some (if d = 0 then .zero else .int) := by
          decide
        exact htable n hsmall
      · rename_i hlarge
        have htable : ∀ d < 10, Numeral.next .int (Nat.digitChar d) = some .int := by decide
        rw [List.foldlM_append, ih (n / 10) (by omega), if_neg (by omega), if_neg (by omega)]
        simp [htable _ (Nat.mod_lt n (by decide))]
  rw [isNumeral, hread]
  split <;> rfl

/-- Where an atom ends. -/
def Stops (rest : List Char) : Prop := ∀ c ∈ rest.head?, isAtomChar c = false

theorem stops_cons {c : Char} (h : isAtomChar c = false) (rest : List Char) : Stops (c :: rest) := by
  intro d hd
  cases hd
  exact h

theorem atom_append {w rest : List Char} {v : Value} (hw : ∀ c ∈ w, isAtomChar c = true) (hrest : Stops rest)
    (hv : words.lookup w = some v ∨ (words.lookup w = none ∧ isNumeral w = true ∧ v = .number w)) :
    atom (w ++ rest) = some (v, rest) := by
  have htake : (w ++ rest).takeWhile isAtomChar = w := by
    rw [List.takeWhile_append_of_pos hw]
    cases rest with
    | nil => simp
    | cons c rest => rw [List.takeWhile_cons_of_neg (by simp [hrest c rfl]), List.append_nil]
  have hdrop : (w ++ rest).dropWhile isAtomChar = rest := by
    rw [List.dropWhile_append_of_pos hw]
    cases rest with
    | nil => rfl
    | cons c rest => rw [List.dropWhile_cons_of_neg (by simp [hrest c rfl])]
  rw [atom, htake, hdrop]
  rcases hv with hword | ⟨hword, hnumeral, rfl⟩
  · rw [hword]
  · rw [hword]
    exact if_pos hnumeral

theorem lookup_words_of_numeral {literal : List Char} (h : isNumeral literal = true) : words.lookup literal = none := by
  have htable : ∀ p ∈ words, isNumeral p.1 = false := by decide
  cases hlookup : words.lookup literal with
  | none => rfl
  | some v =>
    have hword := htable (literal, v) (mem_of_lookup hlookup)
    rw [h] at hword
    cases hword

/-- The first character of an atom opens nothing else. -/
theorem value_atom {n : Nat} {w rest : List Char} {v : Value} (hn : 0 < n) (hw : ∀ c ∈ w, isAtomChar c = true)
    (hne : w ≠ []) (h : atom (w ++ rest) = some (v, rest)) : value n (w ++ rest) = some (v, rest) := by
  obtain ⟨n, rfl⟩ : ∃ k, n = k + 1 := ⟨n - 1, by omega⟩
  cases w with
  | nil => exact absurd rfl hne
  | cons c w =>
    have hc := hw c (List.mem_cons_self ..)
    have hother : ∀ d, isAtomChar d = false → c ≠ d := by
      rintro d hd rfl
      rw [hd] at hc
      cases hc
    rw [List.cons_append, value, if_neg (hother _ rfl), if_neg (hother _ rfl), if_neg (hother _ rfl)]
    exact h

section
variable {ascii : Bool}

theorem render_begins {v : Value} (h : Sound v) :
    ∃ c s, v.render ascii = c :: s ∧ isWhitespace c = false ∧ c ≠ ']' := by
  cases h with
  | null => exact ⟨_, _, rfl, rfl, by decide⟩
  | bool b =>
    cases b
    · exact ⟨_, _, rfl, rfl, by decide⟩
    · exact ⟨_, _, rfl, rfl, by decide⟩
  | @number literal hnumeral =>
    cases literal with
    | nil => cases hnumeral
    | cons c literal =>
      have hc := isAtomChar_of_numeral hnumeral c (List.mem_cons_self ..)
      refine ⟨c, literal, rfl, ?_, ?_⟩
      · by_contra hblank
        rw [Bool.not_eq_false] at hblank
        simp only [isWhitespace, Bool.or_eq_true, beq_iff_eq] at hblank
        rcases hblank with ((rfl | rfl) | rfl) | rfl <;> cases hc
      · rintro rfl
        cases hc
  | str s => exact ⟨_, _, rfl, rfl, by decide⟩
  | arr hitems => exact ⟨_, _, rfl, rfl, by decide⟩
  | obj hkeys hfields => exact ⟨_, _, rfl, rfl, by decide⟩

theorem skip_of_begins {c : Char} (h : isWhitespace c = false) (s : List Char) : skip (c :: s) = c :: s :=
  List.dropWhile_cons_of_neg (by rw [h]; exact Bool.false_ne_true)

theorem skip_render {v : Value} (h : Sound v) (rest : List Char) : skip (v.render ascii ++ rest) = v.render ascii ++ rest := by
  obtain ⟨c, s, hrender, hblank, -⟩ := @render_begins ascii v h
  rw [hrender]
  exact skip_of_begins hblank _

/-- `value` reads the text of `v`, wherever it stands. -/
def Reads (ascii : Bool) (v : Value) : Prop :=
  ∀ n rest, 2 * (v.render ascii).length ≤ n → Stops rest → value n (v.render ascii ++ rest) = some (v, rest)

theorem items_blank (n : Nat) (s : List Char) : items n (' ' :: s) = items n s := by
  cases n with
  | zero => rfl
  | succ n => rw [items, items, skip, List.dropWhile_cons_of_pos rfl, ← skip]

theorem fields_blank (n : Nat) (s : List Char) : fields n (' ' :: s) = fields n s := by
  cases n with
  | zero => rfl
  | succ n => rw [fields, fields, token, skip, List.dropWhile_cons_of_pos rfl, ← skip, ← token]

theorem items_render {vs : List Value} (hne : vs ≠ []) (hsound : ∀ v ∈ vs, Sound v) (hreads : ∀ v ∈ vs, Reads ascii v)
    {n : Nat} (rest : List Char) (hn : 2 * (renderItems ascii vs).length < n) :
    items n (renderItems ascii vs ++ ']' :: rest) = some (vs, rest) := by
  induction vs generalizing n with
  | nil => exact absurd rfl hne
  | cons v vs ih =>
    obtain ⟨n, rfl⟩ : ∃ k, n = k + 1 := ⟨n - 1, by omega⟩
    have hv := hreads v (List.mem_cons_self ..)
    have hs := hsound v (List.mem_cons_self ..)
    cases vs with
    | nil =>
      rw [renderItems] at hn ⊢
      have hstops : Stops (']' :: rest) := stops_cons rfl _
      rw [items, skip_render hs, hv n _ (by omega) hstops]
      rfl
    | cons w vs =>
      rw [renderItems] at hn ⊢
      simp only [List.length_append, List.length_cons] at hn
      have hstops : Stops (',' :: ' ' :: renderItems ascii (w :: vs) ++ ']' :: rest) := stops_cons rfl _
      have hmore : more ']' (',' :: ' ' :: renderItems ascii (w :: vs) ++ ']' :: rest) =
          some (true, ' ' :: renderItems ascii (w :: vs) ++ ']' :: rest) := rfl
      rw [List.append_assoc, items, skip_render hs, hv n _ (by omega) hstops]
      simp only [Option.bind_eq_bind, Option.bind_some, hmore]
      rw [List.cons_append, items_blank, ih (List.cons_ne_nil _ _) (fun u hu => hsound u (List.mem_cons_of_mem _ hu))
        (fun u hu => hreads u (List.mem_cons_of_mem _ hu)) (by omega)]
      rfl

/-- A field up to what comes after it. -/
theorem fields_field {k : List Char} {v : Value} {n : Nat} {s : List Char} (hs : Sound v) (hreads : Reads ascii v)
    (hn : 2 * (v.render ascii).length ≤ n) (hstops : Stops s) :
    fields (n + 1) (quote ascii k ++ ':' :: ' ' :: (v.render ascii ++ s)) =
      (more '\x7d' s).bind fun next =>
        if next.1 then (fields n next.2).map fun more => ((k, v) :: more.1, more.2) else some ([(k, v)], next.2) := by
  have hkey : token '"' (quote ascii k ++ ':' :: ' ' :: (v.render ascii ++ s)) =
      some (k.flatMap (escapeChar ascii) ++ '"' :: ':' :: ' ' :: (v.render ascii ++ s)) := by
    rw [quote, List.cons_append, List.cons_append, List.append_assoc]
    rfl
  have hcolon : token ':' (':' :: ' ' :: (v.render ascii ++ s)) = some (' ' :: (v.render ascii ++ s)) := rfl
  have hblank : skip (' ' :: (v.render ascii ++ s)) = v.render ascii ++ s := by
    rw [← skip_render hs s, skip, List.dropWhile_cons_of_pos rfl, ← skip, skip_render hs, skip_render hs]
  rw [fields]
  simp only [Option.bind_eq_bind, Option.bind_some, hkey, string_quote, hcolon, hblank, hreads n s hn hstops]
  congr 1
  funext next
  obtain ⟨b, s'⟩ := next
  cases b with
  | false => rfl
  | true => cases hfields : fields n s' <;> simp [hfields]

theorem fields_render {fs : List (List Char × Value)} (hne : fs ≠ []) (hsound : ∀ f ∈ fs, Sound f.2)
    (hreads : ∀ f ∈ fs, Reads ascii f.2) {n : Nat} (rest : List Char) (hn : 2 * (renderFields ascii fs).length < n) :
    fields n (renderFields ascii fs ++ '\x7d' :: rest) = some (fs, rest) := by
  induction fs generalizing n with
  | nil => exact absurd rfl hne
  | cons f fs ih =>
    obtain ⟨n, rfl⟩ : ∃ k, n = k + 1 := ⟨n - 1, by omega⟩
    obtain ⟨k, v⟩ := f
    have hv : Reads ascii v := hreads _ (List.mem_cons_self ..)
    have hs : Sound v := hsound _ (List.mem_cons_self ..)
    cases fs with
    | nil =>
      rw [renderFields] at hn ⊢
      simp only [List.length_append, List.length_cons] at hn
      have hstops : Stops ('\x7d' :: rest) := stops_cons rfl _
      rw [List.append_assoc, List.cons_append, List.cons_append, fields_field hs hv (by omega) hstops]
      rfl
    | cons g fs =>
      rw [renderFields] at hn ⊢
      simp only [List.length_append, List.length_cons] at hn
      have hstops : Stops (',' :: ' ' :: (renderFields ascii (g :: fs) ++ '\x7d' :: rest)) := stops_cons rfl _
      have hmore : more '\x7d' (',' :: ' ' :: (renderFields ascii (g :: fs) ++ '\x7d' :: rest)) =
          some (true, ' ' :: (renderFields ascii (g :: fs) ++ '\x7d' :: rest)) := rfl
      have htail := ih (List.cons_ne_nil _ _) (fun u hu => hsound u (List.mem_cons_of_mem _ hu))
        (fun u hu => hreads u (List.mem_cons_of_mem _ hu)) (n := n) (by omega)
      simp only [List.append_assoc, List.cons_append]
      rw [fields_field hs hv (by omega) hstops, hmore, Option.bind_some, if_pos rfl, fields_blank, htail]
      rfl

theorem reads_word {w : List Char} {v : Value} (hrender : v.render ascii = w) (hw : w.all isAtomChar = true)
    (hne : w ≠ []) (hword : words.lookup w = some v) : Reads ascii v := by
  intro n rest hn hstops
  rw [hrender] at hn ⊢
  have hpos := List.length_pos_iff.mpr hne
  have hatom := List.all_eq_true.mp hw
  exact value_atom (by omega) hatom hne (atom_append hatom hstops (Or.inl hword))

theorem reads_render {v : Value} (h : Sound v) : Reads ascii v := by
  induction h with
  | null => exact reads_word (w := "null".toList) rfl rfl (List.cons_ne_nil _ _) rfl
  | bool b =>
    cases b
    · exact reads_word (w := "false".toList) rfl rfl (List.cons_ne_nil _ _) rfl
    · exact reads_word (w := "true".toList) rfl rfl (List.cons_ne_nil _ _) rfl
  | @number literal hnumeral =>
    intro n rest hn hstops
    have hne : literal ≠ [] := by
      rintro rfl
      cases hnumeral
    have hpos := List.length_pos_iff.mpr hne
    rw [Value.render] at hn ⊢
    exact value_atom (by omega) (isAtomChar_of_numeral hnumeral) hne
      (atom_append (isAtomChar_of_numeral hnumeral) hstops (Or.inr ⟨lookup_words_of_numeral hnumeral, hnumeral, rfl⟩))
  | str s =>
    intro n rest hn hstops
    rw [Value.render, quote, List.cons_append, List.length_cons] at hn
    obtain ⟨n, rfl⟩ : ∃ k, n = k + 1 := ⟨n - 1, by omega⟩
    rw [Value.render, quote, List.cons_append, List.cons_append, List.append_assoc, value, if_pos rfl]
    show (string (s.flatMap (escapeChar ascii) ++ '"' :: rest)).bind _ = _
    rw [string_quote]
    rfl
  | @arr vs hsound ih =>
    intro n rest hn hstops
    rw [Value.render, List.cons_append, List.length_cons, List.length_append] at hn
    obtain ⟨n, rfl⟩ : ∃ k, n = k + 1 := ⟨n - 1, by omega⟩
    rw [Value.render, List.cons_append, List.cons_append, List.append_assoc, value, if_neg (by decide), if_pos rfl]
    cases vs with
    | nil => rfl
    | cons v vs =>
      obtain ⟨c, s, hrender, hblank, hc⟩ := @render_begins ascii v (hsound v (List.mem_cons_self ..))
      have hopen : token ']' (renderItems ascii (v :: vs) ++ ([']'] ++ rest)) = none := by
        have hbegins : ∃ s', renderItems ascii (v :: vs) = c :: s' := by
          cases vs with
          | nil => exact ⟨s, by rw [renderItems, hrender]⟩
          | cons w vs => exact ⟨_, by rw [renderItems, hrender, List.cons_append]⟩
        obtain ⟨s', hs'⟩ := hbegins
        rw [hs', List.cons_append, token, skip_of_begins hblank, expect, if_neg hc]
      rw [hopen]
      dsimp only
      simp only [List.length_singleton] at hn
      rw [List.singleton_append, items_render (List.cons_ne_nil _ _) hsound ih rest (by omega)]
      rfl
  | @obj fs hkeys hsound ih =>
    intro n rest hn hstops
    rw [Value.render, List.cons_append, List.length_cons, List.length_append] at hn
    obtain ⟨n, rfl⟩ : ∃ k, n = k + 1 := ⟨n - 1, by omega⟩
    rw [Value.render, List.cons_append, List.cons_append, List.append_assoc, value, if_neg (by decide), if_neg (by decide),
      if_pos rfl]
    cases fs with
    | nil => rfl
    | cons f fs =>
      have hopen : token '\x7d' (renderFields ascii (f :: fs) ++ (['\x7d'] ++ rest)) = none := by
        have hbegins : ∃ s, renderFields ascii (f :: fs) = '"' :: s := by
          cases fs with
          | nil => exact ⟨_, rfl⟩
          | cons g fs => exact ⟨_, rfl⟩
        obtain ⟨s, hs⟩ := hbegins
        rw [hs]
        rfl
      rw [hopen]
      dsimp only
      simp only [List.length_singleton] at hn
      rw [List.singleton_append, fields_render (List.cons_ne_nil _ _) hsound ih rest (by omega)]
      show some (Value.obj (dict (f :: fs)), rest) = _
      rw [dict, OrderedDict.entries_ofList hkeys]

/-- The text of a value is read as the value. -/
theorem loads_render {v : Value} (h : Sound v) : loads (v.render ascii) = some v := by
  have hread := @reads_render ascii v h (2 * (v.render ascii).length) [] (Nat.le_refl _) (fun c hc => by cases hc)
  rw [List.append_nil] at hread
  have hskip := @skip_render ascii v h []
  rw [List.append_nil] at hskip
  exact loads_eq_some.mpr ⟨_, [], by rw [hskip, hread], rfl⟩

/-! ### The characters of a text -/

/-- No control character, and with `ascii` none beyond the printable ones. -/
def Printed (ascii : Bool) (c : Char) : Prop := ' ' ≤ c ∧ (ascii = true → c ≤ '~')

theorem printed_of_ascii {c : Char} (h : Printed true c) : Printed ascii c := ⟨h.1, fun _ => h.2 rfl⟩

theorem printed_digitChar (k : Nat) : Printed true (Nat.digitChar (k % 16)) := by
  have htable : ∀ d < 16, ' ' ≤ Nat.digitChar d ∧ Nat.digitChar d ≤ '~' := by decide
  have hdigit := htable _ (Nat.mod_lt k (by decide))
  exact ⟨hdigit.1, fun _ => hdigit.2⟩

theorem printed_unitEscape (u : Nat) : ∀ c ∈ unitEscape u, Printed true c := by
  intro c hc
  simp only [unitEscape, hexDigits, List.mem_cons, List.not_mem_nil, or_false] at hc
  rcases hc with rfl | rfl | rfl | rfl | rfl | rfl
  · exact ⟨by decide, fun _ => by decide⟩
  · exact ⟨by decide, fun _ => by decide⟩
  · exact printed_digitChar _
  · exact printed_digitChar _
  · exact printed_digitChar _
  · exact printed_digitChar _

theorem printed_escapeChar (d : Char) : ∀ c ∈ escapeChar ascii d, Printed ascii c := by
  intro c hc
  unfold escapeChar at hc
  split at hc
  · rename_i e he
    have htable : ∀ p ∈ shortEscapes, ' ' ≤ p.2 ∧ p.2 ≤ '~' := by decide
    have hprinted := htable (d, e) (mem_of_lookup he)
    rcases List.mem_cons.mp hc with rfl | hmem
    · exact ⟨by decide, fun _ => by decide⟩
    · rw [List.mem_singleton.mp hmem]
      exact ⟨hprinted.1, fun _ => hprinted.2⟩
  · split at hc
    · unfold unicodeEscape at hc
      split at hc
      · exact printed_of_ascii (printed_unitEscape _ c hc)
      · rcases List.mem_append.mp hc with hmem | hmem
        · exact printed_of_ascii (printed_unitEscape _ c hmem)
        · exact printed_of_ascii (printed_unitEscape _ c hmem)
    · rename_i hplain
      rw [List.mem_singleton.mp hc]
      exact ⟨Char.not_lt.mp fun hlt => hplain (Or.inl hlt),
        fun hascii => Char.not_lt.mp fun hlt => hplain (Or.inr ⟨hascii, hlt⟩)⟩

theorem printed_quote (s : List Char) : ∀ c ∈ quote ascii s, Printed ascii c := by
  intro c hc
  rw [quote, List.cons_append, List.mem_cons, List.mem_append, List.mem_singleton] at hc
  rcases hc with rfl | hmem | rfl
  · exact ⟨by decide, fun _ => by decide⟩
  · obtain ⟨d, -, hd⟩ := List.mem_flatMap.mp hmem
    exact printed_escapeChar d c hd
  · exact ⟨by decide, fun _ => by decide⟩

theorem printed_of_isAtomChar {c : Char} (h : isAtomChar c = true) : Printed ascii c := by
  have hcode : 32 ≤ c.val.toNat ∧ c.val.toNat ≤ 126 := by
    delta isAtomChar Char.isAlphanum Char.isAlpha Char.isUpper Char.isLower Char.isDigit at h
    simp only [Bool.or_eq_true, Bool.and_eq_true, decide_eq_true_eq, beq_iff_eq, UInt32.le_iff_toNat_le, ge_iff_le] at h
    rcases h with ((((h | h) | h) | rfl) | rfl) | rfl
    · exact ⟨Nat.le_trans (by decide) h.1, Nat.le_trans h.2 (by decide)⟩
    · exact ⟨Nat.le_trans (by decide) h.1, Nat.le_trans h.2 (by decide)⟩
    · exact ⟨Nat.le_trans (by decide) h.1, Nat.le_trans h.2 (by decide)⟩
    · exact ⟨by decide, by decide⟩
    · exact ⟨by decide, by decide⟩
    · exact ⟨by decide, by decide⟩
  exact ⟨hcode.1, fun _ => hcode.2⟩

theorem printed_of_mem {w : List Char} (hw : w.all (fun c => ' ' ≤ c && c ≤ '~') = true) {c : Char} (h : c ∈ w) :
    Printed ascii c := by
  have hc := Bool.and_eq_true_iff.mp (List.all_eq_true.mp hw c h)
  exact ⟨of_decide_eq_true hc.1, fun _ => of_decide_eq_true hc.2⟩

theorem printed_renderItems {vs : List Value} (hprinted : ∀ v ∈ vs, ∀ c ∈ v.render ascii, Printed ascii c) :
    ∀ c ∈ renderItems ascii vs, Printed ascii c := by
  induction vs with
  | nil => exact fun c hc => by cases hc
  | cons v vs ih =>
    have hv := hprinted v (List.mem_cons_self ..)
    cases vs with
    | nil =>
      rw [renderItems]
      exact hv
    | cons w vs =>
      intro c hc
      simp only [renderItems, List.mem_append, List.mem_cons] at hc
      rcases hc with hc | rfl | rfl | hc
      · exact hv c hc
      · exact printed_of_mem (w := [',']) rfl (List.mem_singleton_self _)
      · exact printed_of_mem (w := [' ']) rfl (List.mem_singleton_self _)
      · exact ih (fun u hu => hprinted u (List.mem_cons_of_mem _ hu)) c hc

theorem printed_renderFields {fs : List (List Char × Value)}
    (hprinted : ∀ f ∈ fs, ∀ c ∈ f.2.render ascii, Printed ascii c) : ∀ c ∈ renderFields ascii fs, Printed ascii c := by
  induction fs with
  | nil => exact fun c hc => by cases hc
  | cons f fs ih =>
    obtain ⟨k, v⟩ := f
    have hfield : ∀ c ∈ quote ascii k ++ ':' :: ' ' :: v.render ascii, Printed ascii c := by
      intro c hc
      simp only [List.mem_append, List.mem_cons] at hc
      rcases hc with hc | rfl | rfl | hc
      · exact printed_quote k c hc
      · exact printed_of_mem (w := [':']) rfl (List.mem_singleton_self _)
      · exact printed_of_mem (w := [' ']) rfl (List.mem_singleton_self _)
      · exact hprinted _ (List.mem_cons_self ..) c hc
    cases fs with
    | nil =>
      rw [renderFields]
      exact hfield
    | cons g fs =>
      intro c hc
      rw [renderFields, List.mem_append] at hc
      rcases hc with hc | hc
      · exact hfield c hc
      · rcases List.mem_cons.mp hc with rfl | hc
        · exact printed_of_mem (w := [',']) rfl (List.mem_singleton_self _)
        · rcases List.mem_cons.mp hc with rfl | hc
          · exact printed_of_mem (w := [' ']) rfl (List.mem_singleton_self _)
          · exact ih (fun u hu => hprinted u (List.mem_cons_of_mem _ hu)) c hc

theorem printed_render {v : Value} (h : Sound v) : ∀ c ∈ v.render ascii, Printed ascii c := by
  induction h with
  | null => exact fun c hc => printed_of_mem (w := "null".toList) rfl hc
  | bool b =>
    cases b
    · exact fun c hc => printed_of_mem (w := "false".toList) rfl hc
    · exact fun c hc => printed_of_mem (w := "true".toList) rfl hc
  | @number literal hnumeral =>
    intro c hc
    rw [Value.render] at hc
    exact printed_of_isAtomChar (isAtomChar_of_numeral hnumeral c hc)
  | str s =>
    intro c hc
    rw [Value.render] at hc
    exact printed_quote s c hc
  | @arr vs hsound ih =>
    intro c hc
    rw [Value.render, List.cons_append, List.mem_cons, List.mem_append] at hc
    rcases hc with rfl | hc | hc
    · exact printed_of_mem (w := ['[']) rfl (List.mem_singleton_self _)
    · exact printed_renderItems ih c hc
    · exact printed_of_mem (w := [']']) rfl hc
  | @obj fs hkeys hsound ih =>
    intro c hc
    rw [Value.render, List.cons_append, List.mem_cons, List.mem_append] at hc
    rcases hc with rfl | hc | hc
    · exact printed_of_mem (w := ['\x7b']) rfl (List.mem_singleton_self _)
    · exact printed_renderFields ih c hc
    · exact printed_of_mem (w := ['\x7d']) rfl hc

end

end JsonText
