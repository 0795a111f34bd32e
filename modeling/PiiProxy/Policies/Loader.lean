import PiiProxy.Policies.Models

/-! The policy loader and provider (`app/policies/loader.py`). A file is its stem with the values that the loader reads of
    the parsed YAML mapping. -/

namespace PiiProxy

/-- The message is the consumer's. -/
structure ConsumerNotAllowedError where
  message : Str
  deriving DecidableEq, Repr

def MaskingStrategy.value : MaskingStrategy → Str
  | fullMask => "FULL_MASK".toList
  | partialMask => "PARTIAL_MASK".toList
  | tokenize => "TOKENIZE".toList
  | synthetic => "SYNTHETIC".toList

/-- `MaskingStrategy(raw)` -/
def MaskingStrategy.ofValue? (raw : Str) : Option MaskingStrategy :=
  [fullMask, partialMask, tokenize, synthetic].find? fun s => s.value == raw

/-- A YAML value as the loader sees it. The keys of a mapping are distinct. -/
inductive PolicyNode where
  /-- Null, a boolean, a number or a date, of which only the truth is read. -/
  | scalar (truthy : Bool)
  | str (s : Str)
  | list (items : List PolicyNode)
  | map (fields : List (Str × PolicyNode))

namespace PolicyNode

/-- `bool(value)` -/
def truth : PolicyNode → Bool
  | scalar truthy => truthy
  | str s => !s.isEmpty
  | list items => !items.isEmpty
  | map fields => !fields.isEmpty

/-- `value.get(key, default)` -/
def get (key : Str) (default : PolicyNode) : PolicyNode → Except PIIProxyError PolicyNode
  | map fields => .ok ((fields.lookup key).getD default)
  | _ => .error (.other "AttributeError")

/-- `for item in value` -/
def iterate : PolicyNode → Except PIIProxyError (List PolicyNode)
  | list items => .ok items
  | map fields => .ok (fields.map fun field => str field.1)
  | str s => .ok (s.map fun c => str [c])
  | scalar _ => .error (.other "TypeError")

/-- `value.items()` -/
def items : PolicyNode → Except PIIProxyError (List (Str × PolicyNode))
  | map fields => .ok fields
  | _ => .error (.other "AttributeError")

/-- `PIIType(value)` -/
def piiType : PolicyNode → Except PIIProxyError PIIType
  | str raw => ((PIIType.ofValue? raw).map Except.ok).getD (.error (.other "ValueError"))
  | _ => .error (.other "ValueError")

/-- `MaskingStrategy(value)` -/
def strategy : PolicyNode → Except PIIProxyError MaskingStrategy
  | str raw => ((MaskingStrategy.ofValue? raw).map Except.ok).getD (.error (.other "ValueError"))
  | _ => .error (.other "ValueError")

end PolicyNode

/-- The mapping of a file: the values of the keys that it has. Rules that are no list of mappings are left out. -/
structure PolicyDocument where
  enabled : Option PolicyNode := none
  detection : Option PolicyNode := none
  masking : Option PolicyNode := none
  demasking : Option PolicyNode := none
  contextRules : List ContextRule := []

/-- Policies by consumer id, each under its own. -/
structure FilePolicyProvider where
  policies : OrderedDict Str ConsumerPolicy
  consumerId_eq : ∀ k policy, policies.get? k = some policy → policy.consumerId = k

namespace FilePolicyProvider

/-- One entry of `masking` -/
def maskingItem (item : Str × PolicyNode) : Except PIIProxyError (PIIType × MaskingStrategy) := do
  let type ← (PolicyNode.str item.1).piiType
  return (type, ← item.2.strategy)

/-- `_load_file` -/
def loadFile (stem : Str) (raw : PolicyDocument) : Except PIIProxyError ConsumerPolicy := do
  let detection := raw.detection.getD (.map [])
  let maskingRaw := raw.masking.getD (.map [])
  let demasking := raw.demasking.getD (.map [])
  let types ← (← detection.get "enabled_types".toList (.list [])).iterate
  let enabledTypes ← types.mapM PolicyNode.piiType
  let masking ← (← maskingRaw.items).mapM maskingItem
  let demaskingEnabled ← demasking.get "enabled".toList (.scalar true)
  return {
    consumerId := stem
    enabled := (raw.enabled.getD (.scalar true)).truth
    enabledTypes
    masking := OrderedDict.ofList masking
    demaskingEnabled := demaskingEnabled.truth
    contextRules := raw.contextRules }

def empty : FilePolicyProvider := ⟨OrderedDict.empty, by rintro k policy ⟨⟩⟩

/-- `self._policies[policy.consumer_id] = policy` -/
def add (provider : FilePolicyProvider) (policy : ConsumerPolicy) : FilePolicyProvider where
  policies := provider.policies.set policy.consumerId policy
  consumerId_eq k policy' h := by
    rw [OrderedDict.get?_set] at h
    split at h
    · rename_i hk
      rw [← Option.some.inj h, hk]
    · exact provider.consumerId_eq k policy' h

/-- `_load_all`, over the files in the order of their paths. -/
def loadAll (files : List (Str × PolicyDocument)) : Except PIIProxyError FilePolicyProvider :=
  files.foldlM (fun provider file => (loadFile file.1 file.2).map provider.add) empty

def getPolicy (provider : FilePolicyProvider) (consumerId : Str) : Except ConsumerNotAllowedError ConsumerPolicy :=
  match provider.policies.get? consumerId with
  | none => .error ⟨"consumer not allowed: ".toList ++ consumerId⟩
  | some policy =>
    if !policy.enabled then .error ⟨"consumer not allowed: ".toList ++ consumerId⟩
    else .ok policy

theorem getPolicy_eq_ok {provider : FilePolicyProvider} {consumerId : Str} {policy : ConsumerPolicy} :
    provider.getPolicy consumerId = .ok policy ↔
      provider.policies.get? consumerId = some policy ∧ policy.enabled = true := by
  unfold getPolicy
  constructor
  · intro h
    split at h
    · cases h
    · rename_i found hfound
      split at h
      · cases h
      · rename_i henabled
        obtain rfl := Except.ok.inj h
        exact ⟨hfound, by simpa using henabled⟩
  · rintro ⟨hfound, henabled⟩
    simp [hfound, henabled]

theorem getPolicy_eq_error {provider : FilePolicyProvider} {consumerId : Str} {e : ConsumerNotAllowedError}
    (h : provider.getPolicy consumerId = .error e) : e = ⟨"consumer not allowed: ".toList ++ consumerId⟩ := by
  unfold getPolicy at h
  split at h
  · exact (Except.error.inj h).symm
  · split at h
    · exact (Except.error.inj h).symm
    · cases h

/-- The policy that is served to a consumer is the consumer's own. -/
theorem consumerId_of_getPolicy {provider : FilePolicyProvider} {consumerId : Str} {policy : ConsumerPolicy}
    (h : provider.getPolicy consumerId = .ok policy) : policy.consumerId = consumerId :=
  provider.consumerId_eq consumerId policy (getPolicy_eq_ok.mp h).1

theorem consumerId_of_loadFile {stem : Str} {raw : PolicyDocument} {policy : ConsumerPolicy}
    (h : loadFile stem raw = .ok policy) : policy.consumerId = stem := by
  simp only [loadFile, bind, Except.bind, pure, Except.pure] at h
  split at h
  · cases h
  split at h
  · cases h
  split at h
  · cases h
  split at h
  · cases h
  split at h
  · cases h
  split at h
  · cases h
  obtain rfl := Except.ok.inj h
  rfl

end FilePolicyProvider

end PiiProxy
