import PiiProxy.Lib.Regex
import PiiProxy.Core

/-! The compiled patterns of the regex detector (`app/detection/regex/detector.py`). -/

namespace PiiProxy.Patterns
open Backtrack Regex

abbrev Pattern := Regex Char

/-! ### Character classes -/

def inRange (lo hi c : Char) : Bool := lo ≤ c && c ≤ hi
def ruUpper (c : Char) : Bool := inRange 'А' 'Я' c || c == 'Ё'
def ruLower (c : Char) : Bool := inRange 'а' 'я' c || c == 'ё'
def ruLetter (c : Char) : Bool := ruUpper c || ruLower c
def enUpper (c : Char) : Bool := inRange 'A' 'Z' c
def enLetter (c : Char) : Bool := enUpper c || inRange 'a' 'z' c
def asciiDigit (c : Char) : Bool := inRange '0' '9' c
def wordChar (c : Char) : Bool := isalnum c || c == '_'

def digit : Pattern := .char isdecimal
def space : Pattern := .char isspace
def lit (c : Char) : Pattern := .char (· == c)
def oneOf (s : String) : Pattern := .char fun c => s.toList.contains c
def str (s : String) : Pattern := cat (s.toList.map lit)

/-- `[\s\-]?` -/
def sepChar (c : Char) : Bool := isspace c || c == '-'
def sep : Pattern := opt (.char sepChar)

/-- The characters that `(?i:x)` accepts beside the two cases of `x`. -/
def extraCases : List (Char × Char) :=
  [('i', 'ı'), ('s', 'ſ'), ('в', Char.ofNat 0x1c80), ('д', Char.ofNat 0x1c81), ('о', Char.ofNat 0x1c82),
    ('с', Char.ofNat 0x1c83), ('т', Char.ofNat 0x1c84), ('т', Char.ofNat 0x1c85), ('ъ', Char.ofNat 0x1c86)]

/-- One lower-case letter under `(?i:…)`. -/
def anyCase (x : Char) : Pattern := .char fun c => lowerChar c == x || extraCases.contains (x, c)

/-- `(?i:a|b|…)` for literal alternatives in lower case. -/
def marker (alternatives : List String) : Pattern :=
  anyOf (alternatives.map fun s => cat (s.toList.map anyCase))

def notAfterDigit : Pattern := .look fun before _ => !before.any isdecimal
def notBeforeDigit : Pattern := .look fun _ rest => !rest.head?.any isdecimal
def wordBoundary : Pattern := .look fun before rest => before.any wordChar != rest.head?.any wordChar

/-- `\s*:?\s*` between a marker and its value. -/
def colon : Pattern := cat [star space, opt (lit ':'), star space]

/-- `[А-ЯЁ][а-яё]+` -/
def ruName : Pattern := .seq (.char ruUpper) (plus (.char ruLower))

/-! ### The patterns -/

def email : Pattern := cat [
  plus (.char fun c => enLetter c || asciiDigit c || "._%+-".toList.contains c), lit '@',
  plus (.char fun c => enLetter c || asciiDigit c || ".-".toList.contains c), lit '.',
  .rep (.char enLetter) 2 none true]

def phone : Pattern := cat [notAfterDigit, .alt (str "+7") (lit '8'), sep,
  .alt (cat [lit '(', times 3 digit, lit ')']) (times 3 digit), sep,
  times 3 digit, sep, times 2 digit, sep, times 2 digit, notBeforeDigit]

/-- `(?<!\d)(?:\d[\s\-]?){12,18}\d(?!\d)` -/
def bankCard : Pattern := .seq notAfterDigit (.seq (between 12 18 (.seq digit sep)) (.seq digit notBeforeDigit))

def inn : Pattern := .alt (cat [notAfterDigit, times 10 digit, notBeforeDigit])
  (cat [notAfterDigit, times 12 digit, notBeforeDigit])

def passportNumber : Pattern := cat [notAfterDigit, times 4 digit, opt space, times 6 digit, notBeforeDigit]

def passportDivisionCode : Pattern := cat [notAfterDigit, times 3 digit, lit '-', times 3 digit, notBeforeDigit]

/-- `\d{2}[./]\d{2}[./]\d{4}` and `\d{4}-\d{2}-\d{2}` -/
def dayFirst : Pattern := cat [times 2 digit, oneOf "./", times 2 digit, oneOf "./", times 4 digit]
def yearFirst : Pattern := cat [times 4 digit, lit '-', times 2 digit, lit '-', times 2 digit]

def birthDate : Pattern := cat [notAfterDigit,
  anyOf [dayFirst, yearFirst,
    cat [between 1 2 digit, plus space, plus (.char wordChar), plus space, times 4 digit]],
  notBeforeDigit]

def cvv : Pattern := cat [notAfterDigit, between 3 4 digit, notBeforeDigit]
def pin : Pattern := cat [notAfterDigit, times 4 digit, notBeforeDigit]

def personName : Pattern := cat [
  marker ["клиент", "гражданин", "гражданка", "заявитель", "пациент", "сотрудник", "менеджер",
    "директор", "держатель", "владелец", "представитель", "покупатель", "абонент",
    "пользователь", "получатель", "отправитель"],
  plus space, .group (.seq ruName (between 0 2 (.seq (plus space) ruName)))]

/-- A place name: words joined by hyphens, as in `Ростов-на-Дону`. -/
def placeName : Pattern := .seq ruName (star (.alt
  (cat [lit '-', plus (.char ruLower), lit '-', ruName]) (.seq (lit '-') ruName)))

def birthPlace : Pattern := cat [
  marker ["место рождения", "родился в", "родилась в", "уроженец", "уроженка", "родом из"],
  star space, opt (lit ':'), star space, opt (oneOf "—–-"), star space,
  opt (anyOf [.seq (str "г.") (star space), .seq (str "городе") (plus space), .seq (str "города") (plus space),
    .seq (str "город") (plus space), .seq (str "село") (plus space), .seq (str "села") (plus space),
    .seq (str "с.") (star space), .seq (str "деревня") (plus space), .seq (str "деревни") (plus space),
    .seq (str "д.") (star space)]),
  .group (cat [placeName, opt (.seq (plus space) placeName),
    opt (cat [plus space, ruName, anyOf (["ской", "ского", "ский", "ого", "ая", "ое"].map str), plus space,
      anyOf (["области", "область", "обл.", "района", "район", "края", "край"].map str)])])]

def citizenship : Pattern := cat [marker ["гражданство", "гражданин", "гражданка"], colon,
  .group (cat [.char ruUpper, star (.char ruLetter),
    between 0 2 (cat [plus space, .char ruUpper, star (.char ruLetter)])])]

/-- `[А-ЯЁа-яё0-9№-]+\.?` -/
def issuerWord : Pattern :=
  .seq (plus (.char fun c => ruLetter c || asciiDigit c || "№-".toList.contains c)) (opt (lit '.'))

def passportIssuer : Pattern := cat [
  anyOf [marker ["кем выдан"], .seq (marker ["выдан"]) wordBoundary, .seq (marker ["выдано"]) wordBoundary,
    marker ["орган, выдавший"]],
  colon, .group (.seq issuerWord (star (.seq (plus space) issuerWord)))]

def passportIssueDate : Pattern := cat [marker ["дата выдачи", "выдан", "выдано"],
  .rep (.char fun c => !asciiDigit c) 0 (some 80) false, .group (.alt dayFirst yearFirst)]

def driverLicense : Pattern := cat [
  marker ["водительское удостоверение", "водительские права", "права", "в.у.", "ву"], colon,
  .group (anyOf [
    cat [times 2 digit, opt space, times 2 (.char ruUpper), opt space, times 6 digit],
    cat [times 2 digit, opt space, times 2 digit, opt space, times 6 digit],
    times 10 digit])]

def address : Pattern := cat [
  marker ["адрес регистрации", "адрес проживания", "адрес", "место жительства", "место регистрации",
    "проживает", "живет", "живёт", "зарегистрирован", "зарегистрирована", "прописан", "прописана"],
  opt (cat [plus space, str "по", plus space, str "адресу"]), colon,
  .group (between 2 10 (cat [plus (.char fun c => ruLetter c || asciiDigit c || c == '-'), opt (lit '.'),
    star space, opt (oneOf ",."), star space]))]

def country : Pattern := cat [marker ["страна"], colon, .group (.seq ruName (opt (.seq (plus space) ruName)))]

def postalCode : Pattern := cat [marker ["индекс", "почтовый индекс"], colon, .group (times 6 digit)]

def city : Pattern := cat [marker ["город", "г."], colon, .group (.seq ruName (opt (.seq (lit '-') ruName)))]

def street : Pattern := cat [marker ["улица", "ул.", "проспект", "пр-т", "переулок", "пер."], colon,
  .group (.seq ruName (opt (.seq (plus space) ruName)))]

def house : Pattern := cat [marker ["дом", "д."], colon, .group (.seq (between 1 4 digit) (opt (.char ruLetter)))]

def apartment : Pattern := cat [marker ["квартира", "кв."], colon, .group (between 1 4 digit)]

/-- `[A-ZА-ЯЁ][A-Za-zА-ЯЁа-яё]+` -/
def holderWord : Pattern :=
  .seq (.char fun c => enUpper c || ruUpper c) (plus (.char fun c => enLetter c || ruLetter c))

def cardholderName : Pattern := cat [
  marker ["держатель карты", "cardholder", "имя на карте", "владелец карты"], colon,
  .group (.seq holderWord (opt (.seq (plus space) holderWord)))]

/-! ### The patterns of the helper methods -/

/-- `$`: the end, or before a line break that ends the text. -/
def atEnd : Pattern := .look fun _ rest => rest == [] || rest == ['\n']

/-- `\s*\d{2}[./]\d{2}[./]\d{4}|\s*\d{4}-\d{2}-\d{2}` -/
def issuerDate : Pattern := .alt (.seq (star space) dayFirst) (.seq (star space) yearFirst)

/-- `\s+\d{1,2}$` -/
def issuerFragment : Pattern := cat [plus space, between 1 2 digit, atEnd]

/-- `в\s+\d{4}\s+году` -/
def yearPhrase : Pattern := cat [lit 'в', plus space, times 4 digit, plus space, str "году"]

/-- `\d{6}|ул\.|улица|д\.|дом|кв\.|квартира|г\.|город` -/
def addressPart : Pattern :=
  .alt (times 6 digit) (anyOf (["ул.", "улица", "д.", "дом", "кв.", "квартира", "г.", "город"].map str))

end PiiProxy.Patterns
