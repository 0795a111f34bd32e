import Mathlib.Data.List.Nodup
import Mathlib.Data.List.ReduceOption
import PiiProxy.Detection.Patterns
import PiiProxy.Detection.Validators

/-! The regex detector (`app/detection/regex/detector.py`): patterns, validators and marker windows. -/

namespace PiiProxy
open Backtrack

/-- `_RULES`, in the order of the dictionary. -/
def rules : List (PIIType × Patterns.Pattern) := [
  (.email, Patterns.email), (.phone, Patterns.phone), (.bankCard, Patterns.bankCard), (.inn, Patterns.inn),
  (.passportNumber, Patterns.passportNumber), (.passportDivisionCode, Patterns.passportDivisionCode),
  (.birthDate, Patterns.birthDate), (.cvv, Patterns.cvv), (.pin, Patterns.pin),
  (.personName, Patterns.personName), (.birthPlace, Patterns.birthPlace), (.citizenship, Patterns.citizenship),
  (.passportIssuer, Patterns.passportIssuer), (.passportIssueDate, Patterns.passportIssueDate),
  (.driverLicense, Patterns.driverLicense), (.address, Patterns.address), (.country, Patterns.country),
  (.postalCode, Patterns.postalCode), (.city, Patterns.city), (.street, Patterns.street),
  (.house, Patterns.house), (.apartment, Patterns.apartment), (.cardholderName, Patterns.cardholderName)]

/-- `_GROUPED_TYPES`: the rule captures the value in its group. -/
def groupedTypes : List PIIType :=
  [.personName, .birthPlace, .citizenship, .passportIssuer, .passportIssueDate, .driverLicense, .address,
    .country, .postalCode, .city, .street, .house, .apartment, .cardholderName]

/-- `_VALIDATORS`; `none` inside is the validator's `ValueError`. -/
def validator (today : Date) : PIIType → Option (Str → Option Bool)
  | .bankCard => some luhn
  | .inn => some innChecksum
  | .birthDate => some fun s => some (isBirthDate today s)
  | _ => none

def markerWindow : Nat := 40

/-- `_MARKER_TYPES` -/
def markerTypes : PIIType → Option (List String)
  | .cvv => some ["cvv", "cvc", "код проверки"]
  | .pin => some ["pin", "пин"]
  | .birthDate => some ["г.р.", "дата рожд", "дата рождения", "род.", "родился", "родилась"]
  | .passportNumber => some ["паспорт", "серия", "выдан"]
  | _ => none

/-- `_COUNTRY_NAMES` -/
def countryNames : List Str := [
  "российская федерация", "российской федерации", "рф", "россия", "россии", "республика беларусь",
  "республики беларусь", "беларусь", "беларуси", "казахстан", "казахстана", "республика казахстан",
  "республики казахстан", "украина", "украины", "узбекистан", "узбекистана", "армения", "армении", "грузия",
  "грузии", "таджикистан", "таджикистана", "киргизия", "киргизии", "молдова", "молдовы", "туркменистан",
  "туркменистана", "азербайджан", "азербайджана", "литва", "литвы", "латвия", "латвии", "эстония",
  "эстонии"].map String.toList

/-- `_ADDRESS_COMPONENT_TYPES`: suppressed near a mention of a bank branch. -/
def addressComponentTypes : List PIIType := [.address, .city, .street, .house, .apartment, .postalCode, .phone]

namespace RegexDetector

def name : Str := "regex".toList

def hasMarker (text : Str) (start stop : Nat) (markers : List String) : Bool :=
  let window := lower (slice text (start - markerWindow) (stop + markerWindow))
  markers.any fun m => isIn m.toList window

/-- The text near `start` mentions a bank branch, and nothing says that the value is a client's. -/
def isBankContext (text : Str) (start : Nat) : Bool :=
  let window := lower (slice text (start - 80) (start + 20))
  if !isIn "банк".toList window && !isIn "отделение".toList window then false
  else
    let personal := ["личный", "личного", "личному", "мой", "моя", "моего", "его", "её", "ее", "клиента", "клиент",
      "заявителя", "пациента", "сотрудника"]
    !personal.any fun indicator => isIn indicator.toList window

def isFullAddress (value : Str) : Bool :=
  (Patterns.addressPart.search value).isSome || (split value).length ≥ 3

/-- Trims a value to the issuing authority; an empty value stands for no entity. -/
def cleanIssuer (text value : Str) (start stop : Nat) : Str × Nat × Nat :=
  let tail := slice text stop (stop + 12)
  -- A date right after the span.
  let (value, stop) :=
    if (Patterns.issuerDate.match? (Cursor.at tail 0)).isSome then (rstrip value, start + (rstrip value).length)
    else (value, stop)
  -- The first digits of a date at the end of the value.
  let (value, stop) :=
    match Patterns.issuerFragment.search value with
    | some frag => (rstrip (value.take frag.start), start + (rstrip (value.take frag.start)).length)
    | none => (value, stop)
  if value.isEmpty || value.all isdigit then ([], start, start)
  else if Patterns.yearPhrase.fullmatch value then ([], start, start)
  else (value, start, stop)

/-- `while end > start and value[-1] in ".,;!? "`: the span covers only the value. -/
def stripPunctuation (value : Str) (stop : Nat) : Str × Nat :=
  let kept := value.rdropWhile fun c => ".,;!? ".toList.contains c
  (kept, stop - (value.length - kept.length))

/-- The value and the span of a match, after the clean-up of grouped values. -/
def matchSpan (text : Str) (type : PIIType) (m : Match) : Except PIIProxyError (Str × Nat × Nat) :=
  if groupedTypes.contains type then
    match m.group with
    | none => .error (.other "TypeError")
    | some (start, stop) =>
      let (value, stop) := stripPunctuation (slice text start stop) stop
      .ok (if type = .passportIssuer then cleanIssuer text value start stop else (value, start, stop))
  else .ok (slice text m.start m.stop, m.start, m.stop)

/-- The conditions that drop a candidate, other than its validator. -/
def dropped (text : Str) (type : PIIType) (value : Str) (start stop : Nat) : Bool :=
  type == .personName && countryNames.contains (lower value) ||
  type == .citizenship && !countryNames.contains (lower value) ||
  type == .address && !isFullAddress value ||
  addressComponentTypes.contains type && isBankContext text start ||
  (markerTypes type).any fun markers => !hasMarker text start stop markers

/-- One pass of the inner loop: the entity of a match, `none` after a `continue`. -/
def entityOf (today : Date) (text : Str) (type : PIIType) (m : Match) : Except PIIProxyError (Option PIIEntity) := do
  let (value, start, stop) ← matchSpan text type m
  if type = .passportIssuer ∧ value = [] then return none
  let valid ← match validator today type with
    | none => pure true
    | some check =>
      match check value with
      | none => .error (.other "ValueError")
      | some ok => pure ok
  if !valid || dropped text type value start stop then return none
  return some { type, value, start, stop, confidence := 1, detector := name }

/-- `RegexDetector.detect` on the day `today`. -/
def detect (today : Date) (text : Str) : Except PIIProxyError (List PIIEntity) := do
  let found ← rules.mapM fun (type, pattern) => (pattern.finditer text).mapM (entityOf today text type)
  return found.flatten.reduceOption

/-! ### The detector always answers -/

section
variable {α β ε : Type} {f : α → Except ε β}

theorem mapM_isOk {l : List α} (h : ∀ a ∈ l, ∃ b, f a = .ok b) : ∃ bs, l.mapM f = .ok bs := by
  induction l with
  | nil => exact ⟨[], rfl⟩
  | cons a l ih =>
    obtain ⟨b, hb⟩ := h a List.mem_cons_self
    obtain ⟨bs, hbs⟩ := ih fun a' ha' => h a' (List.mem_cons_of_mem a ha')
    exact ⟨b :: bs, by rw [List.mapM_cons, hb, hbs]; rfl⟩

theorem isOk_of_mapM {l : List α} {bs : List β} (h : l.mapM f = .ok bs) : ∀ a ∈ l, ∃ b, f a = .ok b := by
  induction l generalizing bs with
  | nil => exact fun a ha => absurd ha List.not_mem_nil
  | cons a l ih =>
    rw [List.mapM_cons] at h
    cases ha : f a with
    | error e =>
      rw [ha] at h
      cases h
    | ok b =>
      cases hl : l.mapM f with
      | error e =>
        rw [ha, hl] at h
        cases h
      | ok bs' => exact List.forall_mem_cons.mpr ⟨⟨b, ha⟩, ih hl⟩

theorem mem_of_mapM {l : List α} {bs : List β} (h : l.mapM f = .ok bs) (b : β) : b ∈ bs ↔ ∃ a ∈ l, f a = .ok b := by
  induction l generalizing bs with
  | nil =>
    obtain rfl := Except.ok.inj h
    simp
  | cons a l ih =>
    rw [List.mapM_cons] at h
    cases ha : f a with
    | error e =>
      rw [ha] at h
      cases h
    | ok b' =>
      cases hl : l.mapM f with
      | error e =>
        rw [ha, hl] at h
        cases h
      | ok bs' =>
        rw [ha, hl] at h
        obtain rfl := Except.ok.inj h
        rw [List.mem_cons, ih hl, List.exists_mem_cons_iff, ha, Except.ok.injEq, eq_comm]

end

/-- A character that `int` accepts if it counts as a digit at all. -/
def Countable (c : Char) : Prop := isdigit c = true → isdecimal c = true

theorem countable_of_isdecimal {c : Char} (h : isdecimal c = true) : Countable c := fun _ => h

theorem countable_of_sepChar {c : Char} (h : Patterns.sepChar c = true) : Countable c := by
  intro hdigit
  rcases Bool.or_eq_true_iff.mp h with hspace | hhyphen
  · rw [isdigit_of_isspace hspace] at hdigit
    cases hdigit
  · obtain rfl := beq_iff_eq.mp hhyphen
    exact absurd hdigit (by decide)

theorem mapM_intOfChar {s : Str} (h : ∀ c ∈ s, isdecimal c = true) : s.mapM intOfChar = some (s.map digitValue) := by
  induction s with
  | nil => rfl
  | cons c s ih =>
    rw [List.mapM_cons, intOfChar, if_pos (h c List.mem_cons_self), ih fun d hd => h d (List.mem_cons_of_mem c hd)]
    rfl

theorem isdecimal_of_mem_digits {s : Str} (h : ∀ c ∈ s, Countable c) : ∀ c ∈ digits s, isdecimal c = true := by
  intro c hc
  obtain ⟨hmem, hdigit⟩ := List.mem_filter.mp hc
  exact h c hmem hdigit

theorem luhn_isSome {s : Str} (h : ∀ c ∈ s, Countable c) : ∃ ok, luhn s = some ok := by
  have hdecimal : ∀ c ∈ (digits s).reverse, isdecimal c = true := fun c hc =>
    isdecimal_of_mem_digits h c (List.mem_reverse.mp hc)
  simp only [luhn, mapM_intOfChar hdecimal]
  split
  · exact ⟨_, rfl⟩
  · exact ⟨_, rfl⟩

theorem innChecksum_isSome {s : Str} (h : ∀ c ∈ s, Countable c) : ∃ ok, innChecksum s = some ok := by
  simp only [innChecksum, mapM_intOfChar (isdecimal_of_mem_digits h)]
  split
  · exact ⟨_, rfl⟩
  · split
    · exact ⟨_, rfl⟩
    · exact ⟨_, rfl⟩

theorem bankCard_only : Patterns.bankCard.Only Countable :=
  ⟨trivial, ⟨fun _ h => countable_of_isdecimal h, fun _ h => countable_of_sepChar h⟩,
    fun _ h => countable_of_isdecimal h, trivial⟩

theorem inn_only : Patterns.inn.Only Countable :=
  ⟨⟨trivial, fun _ h => countable_of_isdecimal h, trivial⟩, trivial, fun _ h => countable_of_isdecimal h, trivial⟩

section
variable {today : Date} {text : Str}

theorem validator_isSome {type : PIIType} {pattern : Patterns.Pattern} (hrule : (type, pattern) ∈ rules) {m : Match}
    (hm : m ∈ pattern.finditer text) {check : Str → Option Bool} (hcheck : validator today type = some check) :
    ∃ ok, check (slice text m.start m.stop) = some ok := by
  have hmatch := (Regex.mem_finditer.mp hm).2
  simp only [rules, List.mem_cons, Prod.mk.injEq, List.not_mem_nil, or_false] at hrule
  cases type <;> cases hcheck
  case bankCard =>
    obtain rfl : pattern = Patterns.bankCard := by simpa using hrule
    exact luhn_isSome (bankCard_only.match? hmatch)
  case inn =>
    obtain rfl : pattern = Patterns.inn := by simpa using hrule
    exact innChecksum_isSome (inn_only.match? hmatch)
  case birthDate => exact ⟨_, rfl⟩

theorem captures_of_grouped : ∀ rule ∈ rules, groupedTypes.contains rule.1 = true → rule.2.captures = true := by
  simp only [rules, List.forall_mem_cons]
  decide +kernel

theorem validator_of_grouped {type : PIIType} (h : groupedTypes.contains type = true) : validator today type = none := by
  cases type <;> first | rfl | exact absurd h (by decide)

theorem entityOf_isOk {type : PIIType} {pattern : Patterns.Pattern} (hrule : (type, pattern) ∈ rules) {m : Match}
    (hm : m ∈ pattern.finditer text) : ∃ found, entityOf today text type m = .ok found := by
  have hspan : ∃ span, matchSpan text type m = .ok span := by
    rw [matchSpan]
    split
    · rename_i hgrouped
      obtain ⟨span, hspan⟩ := Regex.match?_group (captures_of_grouped _ hrule hgrouped) (Regex.mem_finditer.mp hm).2
      rw [hspan]
      exact ⟨_, rfl⟩
    · exact ⟨_, rfl⟩
  obtain ⟨⟨value, start, stop⟩, hspan⟩ := hspan
  simp only [entityOf, hspan, bind, Except.bind, pure, Except.pure]
  split
  · exact ⟨none, rfl⟩
  · cases hcheck : validator today type with
    | none =>
      simp only
      split
      · exact ⟨none, rfl⟩
      · exact ⟨_, rfl⟩
    | some check =>
      have hvalue : value = slice text m.start m.stop := by
        rw [matchSpan] at hspan
        split at hspan
        · rename_i hgrouped
          rw [validator_of_grouped hgrouped] at hcheck
          cases hcheck
        · exact (congrArg Prod.fst (Except.ok.inj hspan)).symm
      obtain ⟨ok, hok⟩ := validator_isSome hrule hm hcheck
      rw [← hvalue] at hok
      simp only [hok]
      split
      · exact ⟨none, rfl⟩
      · exact ⟨_, rfl⟩

theorem entityOf_some {type : PIIType} {m : Match} {e : PIIEntity} (h : entityOf today text type m = .ok (some e)) :
    ∃ value start stop, matchSpan text type m = .ok (value, start, stop) ∧ ¬ (type = .passportIssuer ∧ value = []) ∧
      e = ⟨type, value, start, stop, 1, name⟩ := by
  have hkept : ∀ {drop : Bool} {e' : PIIEntity},
      (if drop then Except.ok none else Except.ok (some e') : Except PIIProxyError _) = .ok (some e) → e = e' := by
    intro drop e' h
    cases drop
    · cases h
      rfl
    · cases h
  rcases hspan : matchSpan text type m with err | ⟨value, start, stop⟩
  · simp [entityOf, hspan, bind, Except.bind] at h
  · refine ⟨value, start, stop, rfl, ?_⟩
    simp only [entityOf, hspan, bind, Except.bind, pure, Except.pure] at h
    split at h
    · cases h
    · rename_i hissuer
      refine ⟨hissuer, ?_⟩
      split at h
      · exact hkept h
      · split at h
        · cases h
        · exact hkept h

theorem type_of_entityOf {type : PIIType} {m : Match} {e : PIIEntity}
    (h : entityOf today text type m = .ok (some e)) : e.type = type := by
  obtain ⟨value, start, stop, -, -, rfl⟩ := entityOf_some h
  rfl

theorem detect_isOk (today : Date) (text : Str) : ∃ entities, detect today text = .ok entities := by
  have hrules : ∀ rule ∈ rules, ∃ found, (fun (type, pattern) =>
      (pattern.finditer text).mapM (entityOf today text type)) rule = .ok found := by
    rintro ⟨type, pattern⟩ hrule
    exact mapM_isOk fun m hm => entityOf_isOk hrule hm
  obtain ⟨found, hfound⟩ := mapM_isOk hrules
  exact ⟨found.flatten.reduceOption, by rw [detect, hfound]; rfl⟩

theorem mem_detect {entities : List PIIEntity} (h : detect today text = .ok entities) (e : PIIEntity) :
    e ∈ entities ↔ ∃ type pattern, (type, pattern) ∈ rules ∧
      ∃ m ∈ pattern.finditer text, entityOf today text type m = .ok (some e) := by
  rw [detect] at h
  cases hfound : rules.mapM fun (type, pattern) => (pattern.finditer text).mapM (entityOf today text type) with
  | error err =>
    rw [hfound] at h
    cases h
  | ok found =>
    rw [hfound] at h
    obtain rfl := Except.ok.inj h
    rw [List.reduceOption_mem_iff, List.mem_flatten]
    constructor
    · rintro ⟨row, hrow, he⟩
      obtain ⟨⟨type, pattern⟩, hrule, hmapM⟩ := (mem_of_mapM hfound row).mp hrow
      exact ⟨type, pattern, hrule, (mem_of_mapM hmapM (some e)).mp he⟩
    · rintro ⟨type, pattern, hrule, m, hm, he⟩
      obtain ⟨row, hrow⟩ : ∃ row, (pattern.finditer text).mapM (entityOf today text type) = .ok row :=
        mapM_isOk fun m hm => entityOf_isOk hrule hm
      exact ⟨row, (mem_of_mapM hfound row).mpr ⟨_, hrule, hrow⟩, (mem_of_mapM hrow (some e)).mpr ⟨m, hm, he⟩⟩

theorem pattern_unique {type : PIIType} {pattern pattern' : Patterns.Pattern} (h : (type, pattern) ∈ rules)
    (h' : (type, pattern') ∈ rules) : pattern = pattern' := by
  have hnodup : (rules.map Prod.fst).Nodup := by decide
  exact congrArg Prod.snd (List.inj_on_of_nodup_map hnodup h h' rfl)

/-- The entities of one type come from the matches of its rule. -/
theorem mem_detect_type {entities : List PIIEntity} (h : detect today text = .ok entities) {type : PIIType}
    {pattern : Patterns.Pattern} (hrule : (type, pattern) ∈ rules) (e : PIIEntity) :
    e ∈ entities ∧ e.type = type ↔ ∃ m ∈ pattern.finditer text, entityOf today text type m = .ok (some e) := by
  rw [mem_detect h]
  constructor
  · rintro ⟨⟨type', pattern', hrule', m, hm, he⟩, htype⟩
    obtain rfl : type' = type := (type_of_entityOf he).symm.trans htype
    obtain rfl := pattern_unique hrule hrule'
    exact ⟨m, hm, he⟩
  · rintro ⟨m, hm, he⟩
    exact ⟨⟨type, pattern, hrule, m, hm, he⟩, type_of_entityOf he⟩

/-- The entity of a match of `[i, j)` without a group. -/
def found (text : Str) (type : PIIType) (i j : Nat) : PIIEntity := ⟨type, slice text i j, i, j, 1, name⟩

/-- Without a group the whole match is the value. -/
theorem entityOf_ungrouped {type : PIIType} (hgroup : groupedTypes.contains type = false) {m : Match} {e : PIIEntity} :
    entityOf today text type m = .ok (some e) ↔
      (∀ check, validator today type = some check → check (slice text m.start m.stop) = some true) ∧
        dropped text type (slice text m.start m.stop) m.start m.stop = false ∧
        e = found text type m.start m.stop := by
  have hspan : matchSpan text type m = .ok (slice text m.start m.stop, m.start, m.stop) := by
    rw [matchSpan, hgroup]
    rfl
  have hissuer : ¬ (type = .passportIssuer ∧ slice text m.start m.stop = []) := by
    rintro ⟨rfl, -⟩
    cases hgroup
  simp only [entityOf, found, hspan, bind, Except.bind, pure, Except.pure, if_neg hissuer]
  cases validator today type with
  | none =>
    cases dropped text type (slice text m.start m.stop) m.start m.stop <;> simp [eq_comm]
  | some check =>
    simp only [Option.some.injEq, forall_eq']
    cases check (slice text m.start m.stop) with
    | none => simp
    | some ok =>
      cases ok <;> cases dropped text type (slice text m.start m.stop) m.start m.stop <;> simp [eq_comm]

end

end RegexDetector

end PiiProxy
