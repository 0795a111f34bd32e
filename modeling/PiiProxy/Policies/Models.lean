import PiiProxy.Core
import PiiProxy.Lib.OrderedDict

/-! Consumer policy models (`app/policies/models.py`). -/

namespace PiiProxy

/-- A value of a policy's YAML file, as far as the context rules tell values apart. -/
inductive Yaml where
  | bool (b : Bool)
  | str (s : Str)
  | list (items : List Yaml)
  /-- Null, a number, a date or a mapping. -/
  | other

abbrev ContextRule := OrderedDict Str Yaml

/-- Per-consumer rules for detection, masking, and demasking. -/
structure ConsumerPolicy where
  consumerId : Str
  enabled : Bool := true
  enabledTypes : List PIIType := []
  masking : OrderedDict PIIType MaskingStrategy := OrderedDict.empty
  demaskingEnabled : Bool := true
  contextRules : List ContextRule := []

namespace ConsumerPolicy

/-- `configs/consumers/default.yaml` -/
def default : ConsumerPolicy where
  consumerId := "default".toList
  enabledTypes := PIIType.all
  masking := OrderedDict.ofList (PIIType.all.map fun type => (type, .fullMask))
  contextRules := [OrderedDict.ofList [("type".toList, .str "PIN".toList),
    ("requires".toList, .list [.str "BANK_CARD".toList]), ("enabled".toList, .bool false)]]

/-- `configs/consumers/demo.yaml` -/
def demo : ConsumerPolicy where
  consumerId := "demo".toList
  enabledTypes := [.email, .phone, .inn, .bankCard, .cvv, .pin]
  masking := OrderedDict.ofList [(.email, .partialMask), (.phone, .fullMask), (.inn, .partialMask),
    (.bankCard, .partialMask), (.cvv, .fullMask), (.pin, .fullMask)]
  contextRules := [OrderedDict.ofList [("type".toList, .str "PIN".toList),
    ("requires".toList, .list [.str "BANK_CARD".toList]), ("enabled".toList, .bool true)]]

end ConsumerPolicy

end PiiProxy
