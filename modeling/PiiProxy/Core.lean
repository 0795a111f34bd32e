import Mathlib.Data.Rat.Defs
import PiiProxy.Python.Str

/-! The domain enums, models and errors (`app/core`). -/

namespace PiiProxy

inductive PIIType where
  | personName | birthDate | birthPlace
  | passportNumber | citizenship | passportIssuer | passportDivisionCode | passportIssueDate
  | driverLicense
  | address | country | postalCode | city | street | house | apartment
  | email | phone | inn
  | bankCard | cvv | pin | cardholderName
  deriving DecidableEq, Repr

namespace PIIType

/-- The members in the order of the enum. -/
def all : List PIIType :=
  [personName, birthDate, birthPlace, passportNumber, citizenship, passportIssuer, passportDivisionCode,
    passportIssueDate, driverLicense, address, country, postalCode, city, street, house, apartment, email, phone,
    inn, bankCard, cvv, pin, cardholderName]

/-- `.value` of the string enum. -/
def value : PIIType → Str
  | personName => "PERSON_NAME".toList
  | birthDate => "BIRTH_DATE".toList
  | birthPlace => "BIRTH_PLACE".toList
  | passportNumber => "PASSPORT_NUMBER".toList
  | citizenship => "CITIZENSHIP".toList
  | passportIssuer => "PASSPORT_ISSUER".toList
  | passportDivisionCode => "PASSPORT_DIVISION_CODE".toList
  | passportIssueDate => "PASSPORT_ISSUE_DATE".toList
  | driverLicense => "DRIVER_LICENSE".toList
  | address => "ADDRESS".toList
  | country => "COUNTRY".toList
  | postalCode => "POSTAL_CODE".toList
  | city => "CITY".toList
  | street => "STREET".toList
  | house => "HOUSE".toList
  | apartment => "APARTMENT".toList
  | email => "EMAIL".toList
  | phone => "PHONE".toList
  | inn => "INN".toList
  | bankCard => "BANK_CARD".toList
  | cvv => "CVV".toList
  | pin => "PIN".toList
  | cardholderName => "CARDHOLDER_NAME".toList

/-- `PIIType(raw)`; `none` is the `ValueError` of an unknown value. -/
def ofValue? (raw : Str) : Option PIIType := all.find? fun t => t.value == raw

theorem mem_all (t : PIIType) : t ∈ all := by cases t <;> decide

theorem eq_of_value_eq {s t : PIIType} (h : s.value = t.value) : s = t := by
  have hall : ∀ s ∈ all, ∀ t ∈ all, s.value = t.value → s = t := by decide +kernel
  exact hall s (mem_all s) t (mem_all t) h

theorem ofValue?_eq_some {raw : Str} {t : PIIType} : ofValue? raw = some t ↔ raw = t.value := by
  constructor
  · intro h
    have hfound := List.find?_some h
    exact (beq_iff_eq.mp hfound).symm
  · rintro rfl
    cases hfind : ofValue? t.value with
    | none => simpa using List.find?_eq_none.mp hfind t (mem_all t)
    | some s =>
      have hfound := List.find?_some hfind
      rw [eq_of_value_eq (beq_iff_eq.mp hfound)]

end PIIType

inductive MaskingStrategy where
  | fullMask | partialMask | tokenize | synthetic
  deriving DecidableEq, Repr

inductive Operation where
  | mask | demask
  deriving DecidableEq, Repr

inductive RestorationStateStatus where
  | masked | demasked
  deriving DecidableEq, Repr

def RestorationStateStatus.value : RestorationStateStatus → Str
  | masked => "MASKED".toList
  | demasked => "DEMASKED".toList

/-- `RestorationStateStatus(raw)`. -/
def RestorationStateStatus.ofValue? (raw : Str) : Option RestorationStateStatus :=
  [masked, demasked].find? fun s => s.value == raw

/-- A detected span. Confidences are compared only, never computed with. -/
structure PIIEntity where
  type : PIIType
  value : Str
  start : Int
  stop : Int
  confidence : Rat := 1
  detector : Str := "unknown".toList
  deriving DecidableEq, Repr

structure DetectionContext where
  consumerId : Str := "default".toList
  language : Str := "ru".toList
  deriving DecidableEq, Repr

/-- The exceptions that a call can end with. `other` stands for every exception that is not one of the
    domain errors, such as one of a detector or of a broken record. -/
inductive PIIProxyError where
  | invalidPayload (message : String)
  | processing (message : String)
  | serviceOverloaded (message : String) (retryAfter : Nat)
  | other (message : String)
  deriving DecidableEq, Repr

end PiiProxy
