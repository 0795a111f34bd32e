import PiiProxy.Lib.Regex
import PiiProxy.Lib.OrderedDict
import PiiProxy.Lib.Sweep
import PiiProxy.Python.Unicode
import PiiProxy.Python.Str
import PiiProxy.Core
import PiiProxy.Detection.Validators
import PiiProxy.Detection.Patterns
import PiiProxy.Detection.RegexDetector
import PiiProxy.Detection.Resolution
import PiiProxy.Detection.Engine
import PiiProxy.Lib.Splice
import PiiProxy.Masking.Strategies
import PiiProxy.Policies.Models
import PiiProxy.Masking.Engine
import PiiProxy.Lib.ExpiringDict
import PiiProxy.Restoration.Models
import PiiProxy.Restoration.Memory
import PiiProxy.Processing.ProcessService
import PiiProxy.Processing.Lifecycle
import PiiProxy.Theorems.MemoryStore
import PiiProxy.Theorems.StateTable
import PiiProxy.Theorems.DemaskingDisabled
import PiiProxy.Theorems.PolicyFilter
import PiiProxy.Theorems.FullMask
import PiiProxy.Theorems.BankCard
import PiiProxy.Lib.History
import PiiProxy.Restoration.Redis
import PiiProxy.Theorems.RedisStore
import PiiProxy.Processing.Concurrent
import PiiProxy.Theorems.Isolation
import PiiProxy.Theorems.SameId
import PiiProxy.Lib.Clusters
import PiiProxy.Theorems.Gaps
import PiiProxy.Theorems.Noninterference
import PiiProxy.Theorems.NumericEdges
import PiiProxy.Theorems.Offsets
import PiiProxy.Theorems.SpanResolution
import PiiProxy.Restoration.RedisClient
import PiiProxy.Processing.Backends
import PiiProxy.Theorems.ErrorAtomicity
import PiiProxy.Theorems.Backends
import PiiProxy.Lib.Replace
import PiiProxy.Processing.SecureLLMPipeline
import PiiProxy.Theorems.PipelineRoundTrip
import PiiProxy.Restoration.Interleaved
import PiiProxy.Theorems.StoreAtomicity
import PiiProxy.Theorems.ContextRules
import PiiProxy.Theorems.PreparedOnce
import PiiProxy.Restoration.Striped
import PiiProxy.Theorems.Overload
import PiiProxy.Lib.Greedy
import PiiProxy.Theorems.LongestSpan
import PiiProxy.Detection.LLMDetector
import PiiProxy.Theorems.ReportedValues
import PiiProxy.Lib.SlidingWindow
import PiiProxy.Core.RateLimit
import PiiProxy.Theorems.RateLimit
import PiiProxy.Lib.CheckDigit
import PiiProxy.Theorems.Luhn
import PiiProxy.Scripts.RunPerformance
import PiiProxy.Theorems.RedactHost
import PiiProxy.Scripts.BuildResult
import PiiProxy.Theorems.FalsePass
import PiiProxy.Lib.Parties
import PiiProxy.Theorems.Completion
import PiiProxy.Policies.Loader
import PiiProxy.Observability.Metrics
import PiiProxy.Api.Errors
import PiiProxy.Api.Dependencies
import PiiProxy.Main
import PiiProxy.Theorems.HttpService
import PiiProxy.Theorems.HttpCompletion
import PiiProxy.Theorems.HttpMetrics
import PiiProxy.Theorems.HttpErrors
import PiiProxy.Theorems.HttpAdmission
import PiiProxy.Lib.Simulation
import PiiProxy.Processing.Atomic
import PiiProxy.Theorems.Atomic
import PiiProxy.Theorems.MemoryAtomic
import PiiProxy.Processing.RedisConcurrent
import PiiProxy.Theorems.RedisAtomic
import PiiProxy.Theorems.RedisCompletion
import PiiProxy.Theorems.RedisContention
import PiiProxy.Theorems.Policies
import PiiProxy.Lib.Markers
import PiiProxy.Theorems.Tokens
import PiiProxy.Lib.JsonText
import PiiProxy.Lib.JsonRoundTrip
import PiiProxy.Restoration.StoredText
import PiiProxy.Observability.Logging
import PiiProxy.Api.Logs
import PiiProxy.Theorems.HttpLogs
import PiiProxy.Lib.RegexRuns
import PiiProxy.Theorems.DigitRuns
import PiiProxy.Theorems.Emails
import PiiProxy.Scripts.Locustfile
import PiiProxy.Theorems.LoadCounters
