import PiiProxy.Detection.RegexDetector
import PiiProxy.Detection.Resolution

/-! The detection engine (`app/detection/engine.py`) and the context resolver. -/

namespace PiiProxy

/-- What a registered detector returns for a text, or the exception that it ends with. -/
abbrev PIIDetector := Str → DetectionContext → Except PIIProxyError (List PIIEntity)

/-- The detector without the entities of other types. -/
def PIIDetector.onlyTypes (types : List PIIType) (detector : PIIDetector) : PIIDetector := fun text context =>
  (detector text context).map fun found => found.filter fun e => types.contains e.type

/-- No rules are applied, so all candidates pass through. -/
def ContextResolver.resolve (entities : List PIIEntity) (_context : DetectionContext) : List PIIEntity := entities

structure DetectionEngine where
  detectors : List PIIDetector

namespace DetectionEngine

/-- The engine without a language model, on the day `today`. -/
def regexOnly (today : Date) : DetectionEngine where
  detectors := [fun text _ => RegexDetector.detect today text]

/-- `candidates.extend(detector.detect(text, context))` -/
def extend (text : Str) (context : DetectionContext) (found : List PIIEntity) (detector : PIIDetector) :
    Except PIIProxyError (List PIIEntity) :=
  (detector text context).map fun more => found ++ more

/-- The candidates of all detectors, in the order of the detectors. -/
def candidates (engine : DetectionEngine) (text : Str) (context : DetectionContext) :
    Except PIIProxyError (List PIIEntity) :=
  engine.detectors.foldlM (extend text context) []

def detect (engine : DetectionEngine) (text : Str) (context : DetectionContext) :
    Except PIIProxyError (List PIIEntity) := do
  let candidates ← engine.candidates text context
  return resolveSpans (ContextResolver.resolve candidates context)

/-- The same detectors, with the entities of other types removed from what each of them returns. -/
def onlyTypes (engine : DetectionEngine) (types : List PIIType) : DetectionEngine where
  detectors := engine.detectors.map (PIIDetector.onlyTypes types)

theorem detect_eq (engine : DetectionEngine) (text : Str) (context : DetectionContext) :
    engine.detect text context = (engine.candidates text context).map resolveSpans := rfl

theorem candidates_regexOnly {today : Date} {text : Str} {found : List PIIEntity}
    (h : RegexDetector.detect today text = .ok found) (context : DetectionContext) :
    (regexOnly today).candidates text context = .ok found := by
  show (RegexDetector.detect today text).map (fun more => [] ++ more) >>= pure = _
  rw [h]
  rfl

theorem extend_onlyTypes (types : List PIIType) (text : Str) (context : DetectionContext) (found : List PIIEntity)
    (detector : PIIDetector) :
    extend text context (found.filter fun e => types.contains e.type) (detector.onlyTypes types) =
      (extend text context found detector).map fun found => found.filter fun e => types.contains e.type := by
  unfold extend PIIDetector.onlyTypes
  cases detector text context with
  | error e => rfl
  | ok more => exact congrArg Except.ok (List.filter_append found more).symm

theorem foldlM_onlyTypes (types : List PIIType) (text : Str) (context : DetectionContext)
    (detectors : List PIIDetector) (found : List PIIEntity) :
    (detectors.map (PIIDetector.onlyTypes types)).foldlM (extend text context)
        (found.filter fun e => types.contains e.type) =
      (detectors.foldlM (extend text context) found).map fun found => found.filter fun e => types.contains e.type := by
  induction detectors generalizing found with
  | nil => rfl
  | cons detector detectors ih =>
    rw [List.map_cons, List.foldlM_cons, List.foldlM_cons, extend_onlyTypes]
    cases extend text context found detector with
    | error e => rfl
    | ok more => exact ih more

theorem candidates_onlyTypes (engine : DetectionEngine) (types : List PIIType) (text : Str)
    (context : DetectionContext) :
    (engine.onlyTypes types).candidates text context =
      (engine.candidates text context).map fun found => found.filter fun e => types.contains e.type :=
  foldlM_onlyTypes types text context engine.detectors []

end DetectionEngine

end PiiProxy
