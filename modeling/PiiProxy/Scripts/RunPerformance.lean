import PiiProxy.Core
import PiiProxy.Lib.OrderedDict

/-! What the load test writes to its report about the command line (`scripts/run_performance.py`). -/

namespace PiiProxy.RunPerformance

def redactHost (url : Str) : Str :=
  match find "://".toList url with
  | none => url
  | some i =>
    let scheme := url.take i
    let rest := url.drop (i + 3)
    let rest := if '@' ∈ rest then afterLast '@' rest else rest
    let rest := if '?' ∈ rest then beforeFirst '?' rest else rest
    let rest := if '#' ∈ rest then beforeFirst '#' rest else rest
    scheme ++ "://".toList ++ rest

/-- The flags whose values are kept as they are. -/
def safeFlags : List Str :=
  ["--profile", "--scenario", "--targets", "--duration", "--max-users", "--rps-per-user", "--spawn-rate",
    "--required-concurrent-users", "--required-concurrent-connections", "--min-peak-ratio", "--max-error-rate",
    "--max-p95-ms", "--max-p99-ms", "--min-achieved-ratio", "--max-incomplete-ratio"].map String.toList

/-- `arg.lstrip("-").replace("-", "_")` -/
def paramName (arg : Str) : Str := replace (arg.dropWhile (· == '-')) "-".toList "_".toList

/-- `--host=` -/
def hostPrefix : Str := "--host=".toList

/-- The parameters with a `--host=…`, the part behind the first `=`. -/
def setHost (params : OrderedDict Str Str) (arg : Str) : OrderedDict Str Str :=
  params.set "host".toList (redactHost (arg.drop hostPrefix.length))

/-- The loop over the arguments that are left. -/
def readArgs : List Str → OrderedDict Str Str → OrderedDict Str Str
  | [], params => params
  | [arg], params => if hostPrefix.isPrefixOf arg then setHost params arg else params
  | arg :: value :: rest, params =>
    if arg = "--host".toList then readArgs rest (params.set "host".toList (redactHost value))
    else if hostPrefix.isPrefixOf arg then readArgs (value :: rest) (setHost params arg)
    else if arg ∈ safeFlags then readArgs rest (params.set (paramName arg) value)
    else readArgs (value :: rest) params

def runParameters (argv : List Str) : OrderedDict Str Str := readArgs argv OrderedDict.empty

end PiiProxy.RunPerformance
