import Mathlib.Data.List.Nodup
import PiiProxy.Lib.JsonRoundTrip
import PiiProxy.Restoration.Models

/-! # The text of a stored record

The dictionary of `to_json` as the text that `json.dumps` writes and `json.loads` reads, and the codec of a store over
it. -/

namespace PiiProxy
open JsonText

namespace Json

mutual

def toValue : Json → Value
  | null => .null
  | num n => .number (Nat.toDigits 10 n)
  | str s => .str s
  | arr items => .arr (toItems items)
  | obj fields => .obj (toFields fields)

def toItems : List Json → List Value
  | [] => []
  | data :: items => toValue data :: toItems items

def toFields : List (String × Json) → List (Str × Value)
  | [] => []
  | (key, data) :: fields => (key.toList, toValue data) :: toFields fields

end

mutual

/-- What a record can have: no record has a truth value or a number that is no count. -/
def ofValue? : Value → Option Json
  | .null => some null
  | .bool _ => none
  | .number literal => if literal.all Char.isDigit then some (num (Nat.ofDigitChars 10 literal 0)) else none
  | .str s => some (str s)
  | .arr items => (ofItems? items).map arr
  | .obj fields => (ofFields? fields).map obj

def ofItems? : List Value → Option (List Json)
  | [] => some []
  | v :: items => (ofValue? v).bind fun data => (ofItems? items).map (data :: ·)

def ofFields? : List (Str × Value) → Option (List (String × Json))
  | [] => some []
  | (key, v) :: fields => (ofValue? v).bind fun data => (ofFields? fields).map ((String.ofList key, data) :: ·)

end

mutual

/-- No dictionary has a key twice. -/
def distinct : Json → Bool
  | null | num _ | str _ => true
  | arr items => distinctItems items
  | obj fields => decide (fields.map Prod.fst).Nodup && distinctFields fields

def distinctItems : List Json → Bool
  | [] => true
  | data :: items => distinct data && distinctItems items

def distinctFields : List (String × Json) → Bool
  | [] => true
  | (_, data) :: fields => distinct data && distinctFields fields

end

/-- `json.dumps(data)` -/
def text (data : Json) : Str := data.toValue.render true

/-- `json.loads(raw)` -/
def ofText (raw : Str) : Option Json := (JsonText.loads raw).bind ofValue?

mutual

theorem ofValue?_toValue : ∀ data : Json, ofValue? data.toValue = some data
  | null => rfl
  | num n => by
    have hdigits : (Nat.toDigits 10 n).all Char.isDigit = true :=
      List.all_eq_true.mpr fun c hc => Nat.isDigit_of_mem_toDigits (by decide) (by decide) hc
    rw [toValue, ofValue?, if_pos hdigits, Nat.ofDigitChars_ten_toDigits]
  | str s => rfl
  | arr items => by rw [toValue, ofValue?, ofItems?_toItems items]; rfl
  | obj fields => by rw [toValue, ofValue?, ofFields?_toFields fields]; rfl

theorem ofItems?_toItems : ∀ items : List Json, ofItems? (toItems items) = some items
  | [] => rfl
  | data :: items => by rw [toItems, ofItems?, ofValue?_toValue data, ofItems?_toItems items]; rfl

theorem ofFields?_toFields : ∀ fields : List (String × Json), ofFields? (toFields fields) = some fields
  | [] => rfl
  | (key, data) :: fields => by
    rw [toFields, ofFields?, ofValue?_toValue data, ofFields?_toFields fields, String.ofList_toList]
    rfl

end

theorem keys_toFields (fields : List (String × Json)) :
    (toFields fields).map Prod.fst = (fields.map Prod.fst).map String.toList := by
  induction fields with
  | nil => rfl
  | cons f fields ih =>
    obtain ⟨key, data⟩ := f
    rw [toFields, List.map_cons, ih]
    rfl

mutual

theorem sound_toValue : ∀ data : Json, data.distinct = true → Sound data.toValue
  | null, _ => .null
  | num n, _ => .number (isNumeral_toDigits n)
  | str s, _ => .str s
  | arr items, h => .arr (sound_toItems items h)
  | obj fields, h => by
    rw [distinct, Bool.and_eq_true, decide_eq_true_eq] at h
    refine .obj ?_ (sound_toFields fields h.2)
    rw [keys_toFields]
    exact List.Nodup.map (fun _ _ => String.toList_injective) h.1

theorem sound_toItems : ∀ items : List Json, distinctItems items = true → ∀ v ∈ toItems items, Sound v
  | [], _, _, hv => by cases hv
  | data :: items, h, v, hv => by
    rw [distinctItems, Bool.and_eq_true] at h
    rcases List.mem_cons.mp hv with rfl | hv
    · exact sound_toValue data h.1
    · exact sound_toItems items h.2 v hv

theorem sound_toFields : ∀ fields : List (String × Json), distinctFields fields = true → ∀ f ∈ toFields fields, Sound f.2
  | [], _, _, hf => by cases hf
  | (key, data) :: fields, h, f, hf => by
    rw [distinctFields, Bool.and_eq_true] at h
    rcases List.mem_cons.mp hf with rfl | hf
    · exact sound_toValue data h.1
    · exact sound_toFields fields h.2 f hf

end

theorem ofText_text {data : Json} (h : data.distinct = true) : ofText data.text = some data := by
  rw [ofText, text, loads_render (sound_toValue data h)]
  exact ofValue?_toValue data

end Json

/-- The text form of timestamps. -/
structure Timestamps where
  isoformat : DateTime → Str
  fromisoformat : Str → Option DateTime
  fromisoformat_isoformat : ∀ date, fromisoformat (isoformat date) = some date
  isoformat_ne_nil : ∀ date, isoformat date ≠ []

/-- Fernet, with the encoding of a text as UTF-8. -/
structure Cipher where
  Token : Type
  encrypt : Str → Token
  decrypt : Token → Option Str
  decrypt_encrypt : ∀ text, decrypt (encrypt text) = some text

/-- The codec of a store. What is no dictionary, as it has a key twice, has no text and is kept as it is; no record is
    such. -/
def Codec.ofText (times : Timestamps) (cipher : Cipher) : Codec where
  Text := Str ⊕ Json
  Token := cipher.Token ⊕ Json
  dumps data := if data.distinct then .inl data.text else .inr data
  loads := Sum.elim Json.ofText some
  isoformat := times.isoformat
  fromisoformat := times.fromisoformat
  encrypt := Sum.map cipher.encrypt id
  decrypt := Sum.elim (fun token => (cipher.decrypt token).map .inl) fun data => some (.inr data)
  loads_dumps data := by
    split
    · rename_i hdistinct
      exact Json.ofText_text hdistinct
    · rfl
  fromisoformat_isoformat := times.fromisoformat_isoformat
  isoformat_ne_nil := times.isoformat_ne_nil
  decrypt_encrypt text := by
    cases text with
    | inl text => exact congrArg (Option.map Sum.inl) (cipher.decrypt_encrypt text)
    | inr data => rfl

namespace RestorationState

/-- What `to_json` returns. -/
def text (codec : Codec) (s : RestorationState) : Str := (Json.obj (s.fields codec)).text

theorem distinct_fields (codec : Codec) (s : RestorationState) : (Json.obj (s.fields codec)).distinct = true := by
  have hmappings : ∀ mappings : List (Str × Str),
      Json.distinctItems (mappings.map fun pair => .arr [.str pair.1, .str pair.2]) = true := by
    intro mappings
    induction mappings with
    | nil => rfl
    | cons pair mappings ih =>
      rw [List.map_cons, Json.distinctItems, ih]
      rfl
  have htypes : ∀ types : List Str, Json.distinctItems (types.map .str) = true := by
    intro types
    induction types with
    | nil => rfl
    | cons type types ih =>
      rw [List.map_cons, Json.distinctItems, ih]
      rfl
  have hkeys : ((s.fields codec).map Prod.fst).Nodup := by
    have hnames : (s.fields codec).map Prod.fst = fieldNames := rfl
    rw [hnames]
    decide
  rw [Json.distinct, decide_eq_true hkeys, Bool.true_and]
  simp only [fields, Json.distinctFields, Json.distinct, hmappings, htypes, Bool.and_true, Bool.true_and]
  split <;> rfl

section
variable (times : Timestamps) (cipher : Cipher)

theorem encode_eq (s : RestorationState) :
    (Codec.ofText times cipher).encode s = .inl (cipher.encrypt (s.text (Codec.ofText times cipher))) := by
  have hdumps : s.toJson (Codec.ofText times cipher) = .inl (s.text (Codec.ofText times cipher)) :=
    if_pos (distinct_fields (Codec.ofText times cipher) s)
  rw [Codec.encode, hdumps]
  rfl

end

end RestorationState

end PiiProxy
