import PiiProxy.Detection.Engine

/-! The detector that asks a language model (`app/detection/llm_detector.py`). The reply of the model to a text, behind
    the cache of replies, and `json.loads` are parameters. -/

namespace PiiProxy.LLMDetector

/-- What `json.loads` returns. The keys of an object are distinct; nothing reads a number. -/
inductive Json where
  | null
  | bool (b : Bool)
  | number (literal : Str)
  | str (s : Str)
  | arr (items : List Json)
  | obj (fields : List (Str × Json))

namespace Json

/-- `value[key]` with a string key. -/
def subscript (key : Str) : Json → Except PIIProxyError Json
  | obj fields =>
    match fields.lookup key with
    | some v => .ok v
    | none => .error (.other "KeyError")
  | _ => .error (.other "TypeError")

/-- `for item in value` -/
def iterate : Json → Except PIIProxyError (List Json)
  | arr items => .ok items
  | obj fields => .ok (fields.map fun field => str field.1)
  | str s => .ok (s.map fun c => str [c])
  | _ => .error (.other "TypeError")

end Json

def name : Str := "llm".toList

/-- `PIIType(raw)`; `none` is the `ValueError` of a value that is no member, a string or not. -/
def piiType : Json → Option PIIType
  | .str raw => PIIType.ofValue? raw
  | _ => none

/-- The entity for a value that `text.find` found at `start`. -/
def entityAt (type : PIIType) (needle : Str) (start : Nat) : PIIEntity where
  type
  value := needle
  start
  stop := start + needle.length
  confidence := 4 / 5
  detector := name

/-- `text.find(needle)`, which accepts a string only; for -1 the loop goes on. -/
def locate (text : Str) (type : PIIType) : Json → Except PIIProxyError (Option PIIEntity)
  | .str needle => .ok ((find needle text).map (entityAt type needle))
  | _ => .error (.other "TypeError")

/-- One pass of the loop over the items: an entity, or `continue`. -/
def parseItem (text : Str) (item : Json) : Except PIIProxyError (Option PIIEntity) := do
  let raw ← item.subscript "type".toList
  match piiType raw with
  | none => return none
  | some type => locate text type (← item.subscript "text".toList)

section
variable (loads : Str → Except PIIProxyError Json)

def parseResponse (text response : Str) : Except PIIProxyError (List PIIEntity) := do
  let payload ← loads response
  let items ← (← payload.subscript "entities".toList).iterate
  return (← items.mapM (parseItem text)).reduceOption

/-- `complete text` is what `_complete_cached(text)` returns, or the exception that it ends with. -/
def detect (complete : Str → Except PIIProxyError Str) (enabled : Bool) (text : Str) (_context : DetectionContext) :
    List PIIEntity :=
  if !enabled then []
  else
    match complete text >>= parseResponse loads text with
    | .ok entities => entities
    | .error _ => []

end

end PiiProxy.LLMDetector
