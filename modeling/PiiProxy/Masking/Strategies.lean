import Mathlib.Data.List.Forall2
import PiiProxy.Core
import PiiProxy.Detection.Patterns

/-! The masking strategies (`app/masking/strategies/impl.py`). -/

namespace PiiProxy

namespace Masking

def fullMaskChar : Char := '*'

/-- `_NUMERIC_VISIBLE_EDGE` -/
def numericVisibleEdge : Nat := 2

/-- `_NUMERIC_MIN_DIGITS` -/
def numericMinDigits : Nat := 4

def initialsTypes : List PIIType := [.personName, .cardholderName]
def numericEdgeTypes : List PIIType := [.passportNumber, .bankCard, .inn, .driverLicense, .phone]
def digitsOnlyTypes : List PIIType := [.passportDivisionCode]
def emailTypes : List PIIType := [.email]

/-- One character under `_ALNUM_RE.sub`. -/
def hide (c : Char) : Char := if isalnum c then fullMaskChar else c

def maskAllAlnum (value : Str) : Str := value.map hide

def maskDigits (value : Str) : Str := value.map fun c => if isdecimal c then fullMaskChar else c

/-- One pass of the loop of `_mask_numeric_edges`, after `index` digits. `str.isdigit` holds of more characters
    than `\d` finds, so `digits[digit_index]` can fail. -/
def maskEdgeChar (digits : Str) (acc : Str × Nat) (c : Char) : Except PIIProxyError (Str × Nat) :=
  let (result, index) := acc
  if isdigit c then
    if index < numericVisibleEdge ∨ index ≥ digits.length - numericVisibleEdge then
      match digits[index]? with
      | some d => .ok (result ++ [d], index + 1)
      | none => .error (.other "IndexError")
    else .ok (result ++ [fullMaskChar], index + 1)
  else .ok (result ++ [c], index)

def maskNumericEdges (value : Str) : Except PIIProxyError Str :=
  let digits := value.filter isdecimal
  if digits.length ≤ numericMinDigits then .ok (maskDigits value)
  else (value.foldlM (maskEdgeChar digits) ([], 0)).map (·.1)

/-- `_WORD_RE.findall`: the maximal runs of word characters. -/
def words (value : Str) : List Str :=
  (value.splitBy fun a b => Patterns.wordChar a == Patterns.wordChar b).filter fun w => w.all Patterns.wordChar

def maskInitials (value : Str) : Str :=
  if (words value).isEmpty then value
  else [' '].intercalate ((words value).map fun word => word.take 1 ++ ['.'])

def maskEmail (value : Str) : Str :=
  if !value.contains '@' then maskAllAlnum value
  else
    let (login, domain) := partitionAt '@' value
    match login with
    | [] => fullMaskChar :: '@' :: domain
    | first :: _ => first :: List.replicate 3 fullMaskChar ++ '@' :: domain

end Masking

open Masking

def FullMaskStrategy.mask (entity : PIIEntity) : Str := maskAllAlnum entity.value

def PartialMaskStrategy.mask (entity : PIIEntity) : Except PIIProxyError Str :=
  if initialsTypes.contains entity.type then .ok (maskInitials entity.value)
  else if numericEdgeTypes.contains entity.type then maskNumericEdges entity.value
  else if digitsOnlyTypes.contains entity.type then .ok (maskDigits entity.value)
  else if emailTypes.contains entity.type then .ok (maskEmail entity.value)
  else .ok (maskAllAlnum entity.value)

/-- `tokenHex` is what `secrets.token_hex(8)` returns to this call. -/
def TokenizeStrategy.mask (tokenHex : Str) (entity : PIIEntity) : Str :=
  "<TOKEN:".toList ++ entity.type.value ++ ":".toList ++ tokenHex ++ ">".toList

def SyntheticStrategy.mask (tokenHex : Str) (entity : PIIEntity) : Str :=
  "<SYNTHETIC:".toList ++ entity.type.value ++ ":".toList ++ tokenHex ++ ">".toList

/-- `DefaultMaskingStrategyFactory.get_strategy(strategy).mask(entity)`. -/
def MaskingStrategy.mask (strategy : MaskingStrategy) (tokenHex : Str) (entity : PIIEntity) :
    Except PIIProxyError Str :=
  match strategy with
  | .fullMask => .ok (FullMaskStrategy.mask entity)
  | .partialMask => PartialMaskStrategy.mask entity
  | .tokenize => .ok (TokenizeStrategy.mask tokenHex entity)
  | .synthetic => .ok (SyntheticStrategy.mask tokenHex entity)

namespace Masking

theorem hide_eq_of_not_alnum {c : Char} (h : isalnum c = false) : hide c = c := by
  simp [hide, h]

/-! ### No strategy masks a text by nothing -/

theorem maskInitials_ne_nil {value : Str} (h : value ≠ []) : maskInitials value ≠ [] := by
  unfold maskInitials
  split
  · exact h
  · rename_i hw
    cases hws : words value with
    | nil => simp [hws] at hw
    | cons w ws =>
      rw [List.map_cons]
      cases ws <;> simp [List.intercalate]

theorem maskEmail_ne_nil {value : Str} (h : value ≠ []) : maskEmail value ≠ [] := by
  unfold maskEmail
  split
  · exact fun heq => h (List.map_eq_nil_iff.mp heq)
  · dsimp only
    split <;> simp

/-- A pass of the loop writes one character, and for a digit one of the digits listed or `*`. -/
theorem maskEdgeChar_ok {digits : Str} {acc acc' : Str × Nat} {c : Char} (h : maskEdgeChar digits acc c = .ok acc') :
    ∃ d, acc'.1 = acc.1 ++ [d] ∧ (isdigit c = true → d ∈ digits ∨ d = fullMaskChar) := by
  obtain ⟨result, index⟩ := acc
  simp only [maskEdgeChar] at h
  split at h
  · split at h
    · split at h
      · rename_i d hd
        cases h
        exact ⟨d, rfl, fun _ => Or.inl (List.mem_of_getElem? hd)⟩
      · cases h
    · cases h
      exact ⟨fullMaskChar, rfl, fun _ => Or.inr rfl⟩
  · rename_i hno
    cases h
    exact ⟨c, rfl, fun hc => absurd hc hno⟩

theorem foldlM_maskEdgeChar_ok {digits : Str} (value : Str) {acc acc' : Str × Nat}
    (h : value.foldlM (maskEdgeChar digits) acc = .ok acc') :
    ∃ out, acc'.1 = acc.1 ++ out ∧
      List.Forall₂ (fun c d => isdigit c = true → d ∈ digits ∨ d = fullMaskChar) value out := by
  induction value generalizing acc with
  | nil =>
    cases h
    exact ⟨[], (List.append_nil _).symm, List.Forall₂.nil⟩
  | cons c value ih =>
    rw [List.foldlM_cons] at h
    rcases hstep : maskEdgeChar digits acc c with err | next
    · rw [hstep] at h
      cases h
    · rw [hstep] at h
      obtain ⟨d, hd, hdigit⟩ := maskEdgeChar_ok hstep
      obtain ⟨out, hout, hall⟩ := ih h
      exact ⟨d :: out, by rw [hout, hd, List.append_assoc]; rfl, List.Forall₂.cons hdigit hall⟩

theorem maskNumericEdges_length {value masked : Str} (h : maskNumericEdges value = .ok masked) :
    masked.length = value.length := by
  unfold maskNumericEdges at h
  dsimp only at h
  split at h
  · cases h
    exact List.length_map _
  · cases hf : value.foldlM (maskEdgeChar (value.filter isdecimal)) ([], 0) with
    | error e => rw [hf] at h; cases h
    | ok acc =>
      rw [hf] at h
      cases h
      obtain ⟨out, hout, hall⟩ := foldlM_maskEdgeChar_ok value hf
      exact (congrArg List.length (hout.trans (List.nil_append out))).trans hall.length_eq.symm

end Masking

theorem MaskingStrategy.mask_ne_nil {strategy : MaskingStrategy} {tokenHex masked : Str} {entity : PIIEntity}
    (hv : entity.value ≠ []) (h : strategy.mask tokenHex entity = .ok masked) : masked ≠ [] := by
  cases strategy with
  | fullMask =>
    cases h
    exact fun heq => hv (List.map_eq_nil_iff.mp heq)
  | partialMask =>
    simp only [MaskingStrategy.mask, PartialMaskStrategy.mask] at h
    split at h
    · cases h
      exact maskInitials_ne_nil hv
    · split at h
      · intro hnil
        have hlen := maskNumericEdges_length h
        rw [hnil, List.length_nil] at hlen
        exact hv (List.length_eq_zero_iff.mp hlen.symm)
      · split at h
        · cases h
          exact fun heq => hv (List.map_eq_nil_iff.mp heq)
        · split at h
          · cases h
            exact maskEmail_ne_nil hv
          · cases h
            exact fun heq => hv (List.map_eq_nil_iff.mp heq)
  | tokenize =>
    obtain rfl := Except.ok.inj h
    exact List.append_ne_nil_of_right_ne_nil _ (by decide)
  | synthetic =>
    obtain rfl := Except.ok.inj h
    exact List.append_ne_nil_of_right_ne_nil _ (by decide)

end PiiProxy
