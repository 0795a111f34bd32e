import PiiProxy.Detection.RegexDetector
import PiiProxy.Lib.RegexRuns

/-! # Which numbers the detector finds

Taxpayer numbers, card codes and PINs are whole runs of digits: of a right length, and with the checksum or a marker that
the type asks for. The detector finds each of them, whatever else the text holds. -/

namespace PiiProxy.RegexDetector
open Backtrack Regex

variable {today : Date} {text : Str}

/-! ### The patterns -/

theorem inn_takesRuns : Patterns.inn.TakesRuns isdecimal fun n => n = 10 ∨ n = 12 := by
  have hten : (Patterns.inn.TakesRuns isdecimal fun n => (10 ≤ n ∧ n ≤ 10) ∨ (12 ≤ n ∧ n ≤ 12)) :=
    (takesRuns isdecimal 0 (Nat.succ_pos 9)).alt (takesRuns isdecimal 0 (Nat.succ_pos 11))
  exact hten.congr fun n => by omega

theorem cvv_takesRuns : Patterns.cvv.TakesRuns isdecimal fun n => n = 3 ∨ n = 4 := by
  have hbetween : Patterns.cvv.TakesRuns isdecimal fun n => 3 ≤ n ∧ n ≤ 3 + 1 := takesRuns isdecimal 1 (Nat.succ_pos 2)
  exact hbetween.congr fun n => by omega

theorem pin_takesRuns : Patterns.pin.TakesRuns isdecimal fun n => n = 4 := by
  have hfour : Patterns.pin.TakesRuns isdecimal fun n => 4 ≤ n ∧ n ≤ 4 + 0 := takesRuns isdecimal 0 (Nat.succ_pos 3)
  exact hfour.congr fun n => by omega

/-! ### What is found -/

/-- The lengths that a number of the type can have. -/
def numberLength : PIIType → Nat → Prop
  | .inn, n => n = 10 ∨ n = 12
  | .cvv, n => n = 3 ∨ n = 4
  | .pin, n => n = 4
  | _, _ => False

/-- A number of the type stands at `[i, j)`. -/
structure IsNumber (text : Str) (type : PIIType) (i j : Nat) : Prop where
  run : WholeRun isdecimal text i j
  length : numberLength type (j - i)
  checksum : type = .inn → innChecksum (slice text i j) = some true
  marked : ∀ markers, markerTypes type = some markers → hasMarker text i j markers = true

theorem rule_of_number {type : PIIType} (htype : type = .inn ∨ type = .cvv ∨ type = .pin) :
    ∃ pattern, (type, pattern) ∈ rules ∧ pattern.TakesRuns isdecimal (numberLength type) := by
  rcases htype with rfl | rfl | rfl
  · exact ⟨Patterns.inn, by simp [rules], inn_takesRuns⟩
  · exact ⟨Patterns.cvv, by simp [rules], cvv_takesRuns⟩
  · exact ⟨Patterns.pin, by simp [rules], pin_takesRuns⟩

theorem entityOf_number {type : PIIType} (htype : type = .inn ∨ type = .cvv ∨ type = .pin) {m : Match} {e : PIIEntity} :
    entityOf today text type m = .ok (some e) ↔
      (type = .inn → innChecksum (slice text m.start m.stop) = some true) ∧
        (∀ markers, markerTypes type = some markers → hasMarker text m.start m.stop markers = true) ∧
        e = found text type m.start m.stop := by
  have hungrouped : groupedTypes.contains type = false := by
    rcases htype with rfl | rfl | rfl <;> rfl
  rw [entityOf_ungrouped hungrouped]
  refine and_congr ?_ (and_congr ?_ Iff.rfl)
  · rcases htype with rfl | rfl | rfl <;> simp [validator]
  · rcases htype with rfl | rfl | rfl <;> simp [dropped, markerTypes, addressComponentTypes]

/-- The detector finds the numbers of these types that the text holds, and no others. -/
theorem detect_numbers (today : Date) (text : Str) : ∃ entities, detect today text = .ok entities ∧
    ∀ type, type = .inn ∨ type = .cvv ∨ type = .pin →
      (∀ e ∈ entities, e.type = type → ∃ i j, e = found text type i j) ∧
        ∀ i j, found text type i j ∈ entities ↔ IsNumber text type i j := by
  obtain ⟨entities, hdetect⟩ := detect_isOk today text
  refine ⟨entities, hdetect, fun type htype => ?_⟩
  obtain ⟨pattern, hrule, hruns⟩ := rule_of_number htype
  have hmem := mem_detect_type hdetect hrule
  constructor
  · intro e he hetype
    obtain ⟨m, -, hentity⟩ := (hmem e).mp ⟨he, hetype⟩
    obtain ⟨-, -, rfl⟩ := (entityOf_number htype).mp hentity
    exact ⟨m.start, m.stop, rfl⟩
  · intro i j
    constructor
    · intro he
      obtain ⟨m, hm, hentity⟩ := (hmem _).mp ⟨he, rfl⟩
      obtain ⟨hchecksum, hmarked, hfound⟩ := (entityOf_number htype).mp hentity
      obtain ⟨hrun, hlength, -⟩ := hruns.mem_finditer.mp hm
      obtain rfl : i = m.start := Int.ofNat_inj.mp (congrArg PIIEntity.start hfound)
      obtain rfl : j = m.stop := Int.ofNat_inj.mp (congrArg PIIEntity.stop hfound)
      exact ⟨hrun, hlength, hchecksum, hmarked⟩
    · rintro ⟨hrun, hlength, hchecksum, hmarked⟩
      have hm : (⟨i, j, none⟩ : Match) ∈ pattern.finditer text := hruns.mem_finditer.mpr ⟨hrun, hlength, rfl⟩
      exact ((hmem _).mpr ⟨_, hm, (entityOf_number htype).mpr ⟨hchecksum, hmarked, rfl⟩⟩).1

end PiiProxy.RegexDetector
