import PiiProxy.Core

/-! The validators (`app/detection/validators.py`). A validator that calls `int` on a character that is
    no decimal digit ends with a `ValueError`, which is `none` here. -/

namespace PiiProxy

/-- `int(ch)` for one character. -/
def intOfChar (c : Char) : Option Nat := if isdecimal c then some (digitValue c) else none

/-- `int(text)` for a text without white space: a sign, then digits with single underscores between them. -/
def intOfStr (text : Str) : Option Int :=
  let (sign, body) : Int × Str :=
    match text with
    | '-' :: rest => (-1, rest)
    | '+' :: rest => (1, rest)
    | _ => (1, text)
  let groups := body.splitOn '_'
  if groups.all fun g => !g.isEmpty && g.all isdecimal then
    some (sign * (groups.flatten.foldl (fun n c => 10 * n + digitValue c) 0 : Nat))
  else none

/-- The characters of `s` that are digits. -/
def digits (s : Str) : Str := s.filter isdigit

/-- What the digit `d` at index `i` from the right adds to the Luhn sum. -/
def luhnTerm (i d : Nat) : Nat :=
  if i % 2 = 1 then (if 2 * d > 9 then 2 * d - 9 else 2 * d) else d

def luhn (s : Str) : Option Bool :=
  let num := digits s
  if 13 ≤ num.length ∧ num.length ≤ 19 then do
    let ds ← num.reverse.mapM intOfChar
    let total := (ds.zipIdx.map fun (d, i) => luhnTerm i d).foldl (· + ·) 0
    return total % 10 == 0
  else some false

/-- A check digit: the weighted sum of the leading digits. -/
def innCheck (weights ds : List Nat) : Nat := (List.zipWith (· * ·) weights ds).foldl (· + ·) 0 % 11 % 10

def innChecksum (s : Str) : Option Bool :=
  let num := digits s
  if num.length = 10 then do
    let ds ← num.mapM intOfChar
    return innCheck [2, 4, 10, 3, 5, 9, 4, 6, 8] ds == ds.getD 9 0
  else if num.length = 12 then do
    let ds ← num.mapM intOfChar
    return innCheck [7, 2, 4, 10, 3, 5, 9, 4, 6, 8] ds == ds.getD 10 0 &&
      innCheck [3, 7, 2, 4, 10, 3, 5, 9, 4, 6, 8] ds == ds.getD 11 0
  else some false

structure Date where
  year : Int
  month : Int
  day : Int
  deriving DecidableEq, Repr

namespace Date

/-- The order of dates: by year, then month, then day. -/
def lt (a b : Date) : Bool :=
  a.year < b.year || a.year == b.year && (a.month < b.month || a.month == b.month && a.day < b.day)

def daysInMonth (year month : Int) : Int :=
  if month = 2 then (if year % 4 = 0 ∧ (year % 100 ≠ 0 ∨ year % 400 = 0) then 29 else 28)
  else if month ∈ [4, 6, 9, 11] then 30
  else 31

/-- `date(year, month, day)`; `none` is its `ValueError`. -/
def mk? (year month day : Int) : Option Date :=
  if 1 ≤ year ∧ year ≤ 9999 ∧ 1 ≤ month ∧ month ≤ 12 ∧ 1 ≤ day ∧ day ≤ daysInMonth year month then
    some ⟨year, month, day⟩
  else none

end Date

/-- A directive of a `strptime` format: the three that the source uses, or a literal character. -/
inductive Directive where
  | day | month | year
  | literal (c : Char)

/-- The character classes that a directive accepts, in the order in which `strptime` tries them. -/
def Directive.shapes : Directive → List (List (Char → Bool))
  | day => [[(· == '3'), fun c => c == '0' || c == '1'], [fun c => c == '1' || c == '2', isdecimal],
      [(· == '0'), fun c => '1' ≤ c && c ≤ '9'], [fun c => '1' ≤ c && c ≤ '9'], [(· == ' '), fun c => '1' ≤ c && c ≤ '9']]
  | month => [[(· == '1'), fun c => '0' ≤ c && c ≤ '2'], [(· == '0'), fun c => '1' ≤ c && c ≤ '9'],
      [fun c => '1' ≤ c && c ≤ '9']]
  | year => [[isdecimal, isdecimal, isdecimal, isdecimal]]
  | literal c => [[(· == c)]]

/-- The number that a field stands for; the space of ` 5` counts for nothing. -/
def fieldValue (field : Str) : Int := ((field.filter isdecimal).foldl (fun n c => 10 * n + digitValue c) 0 : Nat)

/-- The ways to read `text` by a format: the fields read and the text left over, best first. -/
def readFormat : List Directive → Str → List (List (Directive × Int) × Str)
  | [], text => [([], text)]
  | d :: ds, text =>
    d.shapes.flatMap fun shape =>
      if shape.length ≤ text.length ∧ (List.zipWith (fun p c => p c) shape text).all id then
        (readFormat ds (text.drop shape.length)).map fun (fields, rest) =>
          ((d, fieldValue (text.take shape.length)) :: fields, rest)
      else []

/-- The value that a reading gave to a directive of the given kind. -/
def fieldOf (is : Directive → Bool) (fields : List (Directive × Int)) : Int :=
  ((fields.find? fun f => is f.1).map (·.2)).getD 0

/-- `datetime.strptime(text, fmt)`: the first reading counts, and it must leave nothing over. -/
def strptime (text : Str) (fmt : List Directive) : Option Date :=
  match (readFormat fmt text).head? with
  | some (fields, []) =>
    Date.mk? (fieldOf (fun d => d matches .year) fields) (fieldOf (fun d => d matches .month) fields)
      (fieldOf (fun d => d matches .day) fields)
  | _ => none

/-- `%d.%m.%Y`, `%d/%m/%Y` and `%Y-%m-%d`. -/
def dateFormats : List (List Directive) :=
  [[.day, .literal '.', .month, .literal '.', .year], [.day, .literal '/', .month, .literal '/', .year],
    [.year, .literal '-', .month, .literal '-', .day]]

/-- The names of the months in the genitive, from January. -/
def months : List Str :=
  ["января", "февраля", "марта", "апреля", "мая", "июня", "июля", "августа", "сентября", "октября", "ноября",
    "декабря"].map String.toList

def parseDate (s : Str) : Option Date :=
  let text := strip s
  match dateFormats.findSome? (strptime text) with
  | some parsed => some parsed
  | none =>
    match split text with
    | [day, monthName, year] => do
      let month ← months.idxOf? (lower monthName)
      Date.mk? (← intOfStr year) (month + 1) (← intOfStr day)
    | _ => none

/-- A date of birth is in the past, and at most 120 years ago. -/
def isBirthDate (today : Date) (s : Str) : Bool :=
  match parseDate s with
  | none => false
  | some parsed =>
    if !parsed.lt today then false
    else
      let before := Date.lt ⟨0, today.month, today.day⟩ ⟨0, parsed.month, parsed.day⟩
      today.year - parsed.year - (if before then 1 else 0) ≤ 120

example : luhn "4111 1111 1111 1111".toList = some true := by decide +kernel
example : innChecksum "500100732259".toList = some true := by decide +kernel
example : parseDate "31.02.1990".toList = none := by decide +kernel

end PiiProxy
