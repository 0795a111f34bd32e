import PiiProxy.Python.Str

/-! What the service makes of the headers of a request (`app/api/dependencies.py`, `app/observability/logging.py`). A
    header is a text of Latin-1 characters. -/

namespace PiiProxy.Api

/-- `c.lower()` of a Latin-1 character. -/
def lowerLatin1 (c : Char) : Char :=
  if 'A' ≤ c ∧ c ≤ 'Z' ∨ 'À' ≤ c ∧ c ≤ 'Þ' ∧ c ≠ '×' then Char.ofNat (c.toNat + 32) else c

/-- `x_consumer_id.strip().lower()` -/
def normalizeConsumerId (raw : Str) : Str := (strip raw).map lowerLatin1

def getConsumerId (defaultConsumerId : Str) (xConsumerId : Option Str) : Str :=
  match xConsumerId with
  | none => defaultConsumerId
  | some raw =>
    let normalized := normalizeConsumerId raw
    if normalized.isEmpty then defaultConsumerId else normalized

/-- `[A-Za-z0-9._-]` -/
def requestIdChar (c : Char) : Bool :=
  'A' ≤ c && c ≤ 'Z' || 'a' ≤ c && c ≤ 'z' || '0' ≤ c && c ≤ '9' || c == '.' || c == '_' || c == '-'

/-- `uuid4` is the text that `str(uuid.uuid4())` draws. -/
def normalizeRequestId (candidate : Option Str) (uuid4 : Str) : Str :=
  match candidate with
  | none => uuid4
  | some candidate =>
    if 1 ≤ candidate.length ∧ candidate.length ≤ 64 ∧ candidate.all requestIdChar = true then candidate else uuid4

end PiiProxy.Api
