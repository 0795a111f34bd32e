import PiiProxy.Lib.JsonRoundTrip
import PiiProxy.Python.Str

/-! # Structured logging

The lines of `app/observability/logging.py`: what `JsonFormatter` makes of a record. -/

namespace PiiProxy.Logging
open JsonText

/-- A record of the `logging` module. `extra` has the attributes that the call has given it, and `excType` is the name of
    the class of its exception. -/
structure LogRecord where
  levelname : Str
  name : Str
  message : Str
  extra : OrderedDict Str Value
  excType : Option Str := none

/-- `_STRUCTURED_FIELDS`, none of which a record has of itself. -/
def structuredFields : List Str := [
  "event".toList,
  "request_id".toList,
  "method".toList,
  "path".toList,
  "status_code".toList,
  "operation".toList,
  "consumer_id".toList,
  "payload_id_hash".toList,
  "detected_types".toList,
  "entity_count".toList,
  "duration_ms".toList,
  "error_type".toList,
  "exception_type".toList]

/-- The keys that a line can have. -/
def lineKeys : List Str := "timestamp".toList :: "level".toList :: "logger".toList :: structuredFields

/-- `getattr(record, field, None)` -/
def LogRecord.getattr (r : LogRecord) (field : Str) : Value := (r.extra.get? field).getD .null

def isNone : Value → Bool
  | .null => true
  | _ => false

/-- `bool(value)`: a number is false if it has no digit but zeros before its exponent. -/
def truthy : Value → Bool
  | .null => false
  | .bool b => b
  | .number literal => (literal.takeWhile fun c => c != 'e' && c != 'E').any fun c => !("0.-".toList.contains c)
  | .str s => !s.isEmpty
  | .arr items => !items.isEmpty
  | .obj fields => !fields.isEmpty

/-- `payload[key] = value`, unless it is `None`. -/
def setPresent (d : OrderedDict Str Value) (key : Str) (v : Value) : OrderedDict Str Value :=
  if isNone v then d else d.set key v

section
variable (timestamp : Str) (contextId : Option Str) (r : LogRecord)

/-- `getattr(record, "request_id", None) or _REQUEST_ID.get()` -/
def requestIdOf : Value :=
  let own := r.getattr "request_id".toList
  if truthy own then own else (contextId.map .str).getD .null

/-- The dictionary of a line. The time is that of the formatting, and `contextId` what the context variable has. -/
def payload : OrderedDict Str Value :=
  let base := .ofList [
    ("timestamp".toList, .str timestamp),
    ("level".toList, .str r.levelname),
    ("logger".toList, .str r.name),
    ("event".toList, (r.extra.get? "event".toList).getD (.str r.message))]
  let identified := setPresent base "request_id".toList (requestIdOf contextId r)
  let structured := structuredFields.foldl (fun d field => setPresent d field (r.getattr field)) identified
  setPresent structured "exception_type".toList ((r.excType.map .str).getD .null)

/-- `JsonFormatter.format` -/
def format : Str := (Value.obj (payload timestamp contextId r).entries).render false

/-! ### What a line says -/

variable {timestamp contextId r}

theorem forall_setPresent {d : OrderedDict Str Value} {key : Str} {v : Value} {p : Str × Value → Prop}
    (hd : ∀ f ∈ d.entries, p f) (hv : isNone v = false → p (key, v)) : ∀ f ∈ (setPresent d key v).entries, p f := by
  unfold setPresent
  split
  · exact hd
  · rename_i hnone
    exact OrderedDict.forall_set hd (hv (Bool.eq_false_iff.mpr hnone))

/-- Where a field of a line comes from. Of the message nothing is there if the record names its event, and of the other
    attributes nothing at all. -/
inductive Origin (timestamp : Str) (contextId : Option Str) (r : LogRecord) : Str × Value → Prop
  | timestamp : Origin timestamp contextId r ("timestamp".toList, .str timestamp)
  | level : Origin timestamp contextId r ("level".toList, .str r.levelname)
  | logger : Origin timestamp contextId r ("logger".toList, .str r.name)
  | message (h : r.extra.get? "event".toList = none) : Origin timestamp contextId r ("event".toList, .str r.message)
  | context {id : Str} (h : contextId = some id) : Origin timestamp contextId r ("request_id".toList, .str id)
  | given {field : Str} {v : Value} (hfield : field ∈ structuredFields) (h : r.extra.get? field = some v) :
    Origin timestamp contextId r (field, v)
  | exception {name : Str} (h : r.excType = some name) : Origin timestamp contextId r ("exception_type".toList, .str name)

theorem origin_getattr {field : Str} (hfield : field ∈ structuredFields) (h : isNone (r.getattr field) = false) :
    Origin timestamp contextId r (field, r.getattr field) := by
  rw [LogRecord.getattr] at h ⊢
  cases hget : r.extra.get? field with
  | none =>
    rw [hget] at h
    cases h
  | some v => exact .given hfield hget

theorem payload_origin : ∀ f ∈ (payload timestamp contextId r).entries, Origin timestamp contextId r f := by
  refine forall_setPresent ?_ fun hname => ?_
  · have hfields : ∀ (fields : List Str) (d : OrderedDict Str Value), (∀ field ∈ fields, field ∈ structuredFields) →
        (∀ f ∈ d.entries, Origin timestamp contextId r f) →
        ∀ f ∈ (fields.foldl (fun d field => setPresent d field (r.getattr field)) d).entries,
          Origin timestamp contextId r f := by
      intro fields
      induction fields with
      | nil => exact fun d _ hd => hd
      | cons field fields ih =>
        intro d hmem hd
        refine ih _ (fun other hother => hmem other (List.mem_cons_of_mem field hother)) ?_
        exact forall_setPresent hd (origin_getattr (hmem field List.mem_cons_self))
    refine hfields structuredFields _ (fun _ h => h) (forall_setPresent (OrderedDict.forall_ofList fun f hf => ?_) fun hid => ?_)
    · simp only [List.mem_cons, List.not_mem_nil, or_false] at hf
      rcases hf with rfl | rfl | rfl | rfl
      · exact .timestamp
      · exact .level
      · exact .logger
      · cases hget : r.extra.get? "event".toList with
        | none => exact .message hget
        | some v => exact .given (by decide) hget
    · rw [requestIdOf] at hid ⊢
      split
      · rename_i htruthy
        rw [if_pos htruthy] at hid
        exact origin_getattr (by decide) hid
      · rename_i htruthy
        rw [if_neg htruthy] at hid
        cases hcontext : contextId with
        | none =>
          rw [hcontext] at hid
          cases hid
        | some id => exact .context rfl
  · cases hexc : r.excType with
    | none =>
      rw [hexc] at hname
      cases hname
    | some name => exact .exception hexc

theorem Origin.key {f : Str × Value} (h : Origin timestamp contextId r f) : f.1 ∈ lineKeys := by
  cases h with
  | timestamp => exact (by decide : "timestamp".toList ∈ lineKeys)
  | level => exact (by decide : "level".toList ∈ lineKeys)
  | logger => exact (by decide : "logger".toList ∈ lineKeys)
  | message => exact (by decide : "event".toList ∈ lineKeys)
  | context => exact (by decide : "request_id".toList ∈ lineKeys)
  | exception => exact (by decide : "exception_type".toList ∈ lineKeys)
  | given hfield => exact List.mem_cons_of_mem _ (List.mem_cons_of_mem _ (List.mem_cons_of_mem _ hfield))

theorem Origin.sound {f : Str × Value} (hextra : ∀ e ∈ r.extra.entries, Sound e.2) (h : Origin timestamp contextId r f) :
    Sound f.2 := by
  cases h with
  | timestamp | level | logger | message | context | exception => exact .str _
  | given hfield hget => exact hextra _ (OrderedDict.get?_eq_some.mp hget)

/-- A record becomes one line, without control characters, from which its fields can be read. -/
theorem format_spec (hextra : ∀ e ∈ r.extra.entries, Sound e.2) :
    (∀ c ∈ format timestamp contextId r, ' ' ≤ c) ∧
      loads (format timestamp contextId r) = some (.obj (payload timestamp contextId r).entries) := by
  have hsound : Sound (.obj (payload timestamp contextId r).entries) :=
    .obj (payload timestamp contextId r).nodup fun f hf => (payload_origin f hf).sound hextra
  exact ⟨fun c hc => (printed_render hsound c hc).1, loads_render hsound⟩

end

end PiiProxy.Logging
