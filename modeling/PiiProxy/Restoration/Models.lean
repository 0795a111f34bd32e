import PiiProxy.Core

/-! The restoration state and its stored form (`app/restoration/models.py`). -/

namespace PiiProxy

/-- A timestamp in UTC. -/
structure DateTime where
  microseconds : Nat
  deriving DecidableEq, Repr

/-- State required to restore an original text from its mask. -/
structure RestorationState where
  payloadId : Str
  originalHash : Str
  originalText : Str
  maskedText : Str
  mappings : List (Str × Str) := []
  entityCount : Nat := 0
  detectedTypes : List Str := []
  state : RestorationStateStatus := .masked
  createdAt : DateTime
  expiresAt : Option DateTime := none
  consumerId : Str := []
  deriving DecidableEq, Repr

inductive Json where
  | null
  | num (n : Nat)
  | str (s : Str)
  | arr (items : List Json)
  | obj (fields : List (String × Json))

namespace Json

def str? : Json → Option Str
  | str s => some s
  | _ => none

def num? : Json → Option Nat
  | num n => some n
  | _ => none

def arr? : Json → Option (List Json)
  | arr items => some items
  | _ => none

/-- `tuple(pair)` of a mapping, which has two strings. -/
def pair? : Json → Option (Str × Str)
  | arr [str replacement, str original] => some (replacement, original)
  | _ => none

end Json

/-- What comes from outside: the `json` module, the text form of timestamps and the cipher of a store, each of
    which can undo what it did. `encrypt` stands for any of the tokens that Fernet may draw for a text. -/
structure Codec where
  Text : Type
  Token : Type
  dumps : Json → Text
  loads : Text → Option Json
  isoformat : DateTime → Str
  fromisoformat : Str → Option DateTime
  encrypt : Text → Token
  decrypt : Token → Option Text
  loads_dumps : ∀ data, loads (dumps data) = some data
  fromisoformat_isoformat : ∀ date, fromisoformat (isoformat date) = some date
  isoformat_ne_nil : ∀ date, isoformat date ≠ []
  decrypt_encrypt : ∀ text, decrypt (encrypt text) = some text

attribute [simp] Codec.loads_dumps Codec.fromisoformat_isoformat Codec.decrypt_encrypt

namespace RestorationState

def fieldNames : List String := ["payload_id", "original_hash", "original_text", "masked_text", "mappings",
  "entity_count", "detected_types", "state", "created_at", "expires_at", "consumer_id"]

/-- The dictionary that `to_json` serialises. -/
def fields (codec : Codec) (s : RestorationState) : List (String × Json) := [
  ("payload_id", .str s.payloadId),
  ("original_hash", .str s.originalHash),
  ("original_text", .str s.originalText),
  ("masked_text", .str s.maskedText),
  ("mappings", .arr (s.mappings.map fun pair => .arr [.str pair.1, .str pair.2])),
  ("entity_count", .num s.entityCount),
  ("detected_types", .arr (s.detectedTypes.map .str)),
  ("state", .str s.state.value),
  ("created_at", .str (codec.isoformat s.createdAt)),
  ("expires_at", match s.expiresAt with
    | some date => .str (codec.isoformat date)
    | none => .null),
  ("consumer_id", .str s.consumerId)]

def toJson (codec : Codec) (s : RestorationState) : codec.Text := codec.dumps (.obj (s.fields codec))

/-- `data["expires_at"]`, if it is there and not empty. -/
def readExpiresAt (codec : Codec) : Option Json → Option (Option DateTime)
  | none | some .null | some (.str []) => some none
  | some (.str raw) => (codec.fromisoformat raw).map some
  | some _ => none

/-- `from_json` on the loaded dictionary; `none` is the exception that a broken record causes. -/
def ofFields (codec : Codec) (payloadId : Str) (data : List (String × Json)) : Option RestorationState := do
  let state ← (data.lookup "state").bind Json.str? |>.bind RestorationStateStatus.ofValue?
  let createdAt ← (data.lookup "created_at").bind Json.str? |>.bind codec.fromisoformat
  let expiresAt ← readExpiresAt codec (data.lookup "expires_at")
  -- Older records may lack the consumer.
  let consumerId ← (data.lookup "consumer_id").elim (some []) Json.str?
  let mappings ← (data.lookup "mappings").elim (some []) fun v => v.arr?.bind fun items => items.mapM Json.pair?
  -- `cls(**data)`
  if !data.all fun field => fieldNames.contains field.1 then none
  let originalHash ← (data.lookup "original_hash").bind Json.str?
  let originalText ← (data.lookup "original_text").bind Json.str?
  let maskedText ← (data.lookup "masked_text").bind Json.str?
  let entityCount ← (data.lookup "entity_count").elim (some 0) Json.num?
  let detectedTypes ← (data.lookup "detected_types").elim (some []) fun v =>
    v.arr?.bind fun items => items.mapM Json.str?
  return {
    payloadId, originalHash, originalText, maskedText, mappings, entityCount, detectedTypes, state, createdAt,
    expiresAt, consumerId }

def fromJson (codec : Codec) (payloadId : Str) (raw : codec.Text) : Option RestorationState :=
  match codec.loads raw with
  | some (.obj data) => ofFields codec payloadId data
  | _ => none

/-! ### The stored form loses nothing but the payload id -/

theorem mapM_map_of_inverse {α β : Type} {f : α → β} {g : β → Option α} (h : ∀ a, g (f a) = some a) (l : List α) :
    (l.map f).mapM g = some l := by
  induction l with
  | nil => rfl
  | cons a l ih => rw [List.map_cons, List.mapM_cons, h, ih]; rfl

theorem ofValue?_value (state : RestorationStateStatus) : RestorationStateStatus.ofValue? state.value = some state := by
  cases state <;> decide

theorem readExpiresAt_fields (codec : Codec) (expiresAt : Option DateTime) :
    readExpiresAt codec (some (match expiresAt with
      | some date => .str (codec.isoformat date)
      | none => .null)) = some expiresAt := by
  cases expiresAt with
  | none => rfl
  | some date =>
    show readExpiresAt codec (some (.str (codec.isoformat date))) = some (some date)
    have hread := codec.fromisoformat_isoformat date
    have hne := codec.isoformat_ne_nil date
    revert hread hne
    generalize codec.isoformat date = raw
    intro hread hne
    cases raw with
    | nil => exact absurd rfl hne
    | cons c cs => simp [readExpiresAt, hread]

theorem ofFields_fields (codec : Codec) (payloadId : Str) (s : RestorationState) :
    ofFields codec payloadId (s.fields codec) = some { s with payloadId } := by
  have hmappings : (s.mappings.map fun pair => Json.arr [.str pair.1, .str pair.2]).mapM Json.pair? = some s.mappings :=
    mapM_map_of_inverse (g := Json.pair?) (fun _ => rfl) _
  have htypes : (s.detectedTypes.map Json.str).mapM Json.str? = some s.detectedTypes :=
    mapM_map_of_inverse (g := Json.str?) (fun _ => rfl) _
  have hexpires := readExpiresAt_fields codec s.expiresAt
  simp [ofFields, fields, fieldNames, List.lookup_cons, Json.str?, Json.num?, Json.arr?, hmappings, htypes, hexpires,
    ofValue?_value]

theorem fromJson_toJson (codec : Codec) (payloadId : Str) (s : RestorationState) :
    fromJson codec payloadId (s.toJson codec) = some { s with payloadId } := by
  rw [fromJson, toJson, codec.loads_dumps]
  exact ofFields_fields codec payloadId s

end RestorationState

namespace Codec

/-- `encrypt(state.to_json())` -/
def encode (codec : Codec) (s : RestorationState) : codec.Token := codec.encrypt (s.toJson codec)

/-- `from_json(payload_id, decrypt(token))`, which fails on a token that the store did not write. -/
def decode (codec : Codec) (payloadId : Str) (token : codec.Token) : Except PIIProxyError RestorationState :=
  match (codec.decrypt token).bind (RestorationState.fromJson codec payloadId) with
  | some s => .ok s
  | none => .error (.other "broken record")

@[simp] theorem decode_encode (codec : Codec) (payloadId : Str) (s : RestorationState) :
    codec.decode payloadId (codec.encode s) = .ok { s with payloadId } := by
  rw [decode, encode, codec.decrypt_encrypt, Option.bind_some, RestorationState.fromJson_toJson]

/-- A record that is stored under its own id comes back as it was. -/
theorem decode_encode_self (codec : Codec) {payloadId : Str} {s : RestorationState} (h : s.payloadId = payloadId) :
    codec.decode payloadId (codec.encode s) = .ok s := by
  subst h
  exact codec.decode_encode s.payloadId s

/-- A codec that keeps records in the clear. -/
def plain : Codec where
  Text := Json
  Token := Json
  dumps := id
  loads := some
  isoformat date := 'T' :: List.replicate date.microseconds '0'
  fromisoformat raw := some ⟨raw.length - 1⟩
  encrypt := id
  decrypt := some
  loads_dumps _ := rfl
  fromisoformat_isoformat _ := by simp
  isoformat_ne_nil _ := by simp
  decrypt_encrypt _ := rfl

end Codec

/-- What a store calls inside a transition (`app/restoration/base.py`): from the current state to the next one,
    `none` for no state. It can raise. -/
abbrev TransitionFn := Option RestorationState → Except PIIProxyError (Option RestorationState)

end PiiProxy
