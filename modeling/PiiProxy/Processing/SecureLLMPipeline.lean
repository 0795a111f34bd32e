import PiiProxy.Detection.Engine
import PiiProxy.Masking.Engine

/-! A prompt goes masked through an LLM, and its response is restored (`app/processing/secure_llm_pipeline.py`). -/

namespace PiiProxy

/-- `LLMAdapter.generate`, which may raise. -/
abbrev LLMAdapter := Str → Except PIIProxyError Str

/-- `app/llm/mock.py` -/
def MockLLMAdapter : LLMAdapter := fun prompt => .ok prompt

namespace SecureLLMPipeline

/-- The loop over the mappings. -/
def restore (mappings : List (Str × Str)) (llmOutput : Str) : Str :=
  mappings.foldl (fun restored (replacement, original) => replace restored replacement original) llmOutput

def run (engine : DetectionEngine) (tokenHex : Nat → Str) (llm : LLMAdapter) (text : Str) (policy : ConsumerPolicy) :
    Except PIIProxyError Str := do
  let detection ← engine.detect text { consumerId := policy.consumerId }
  let entities := detection.filter fun e => policy.enabledTypes.contains e.type
  let masking ← MaskingEngine.mask tokenHex text policy.masking entities policy.contextRules
  let llmOutput ← llm masking.maskedText
  return restore masking.mappings llmOutput

end SecureLLMPipeline

end PiiProxy
