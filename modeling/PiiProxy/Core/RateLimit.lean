import Mathlib.Algebra.Order.Field.Rat
import PiiProxy.Lib.SlidingWindow
import PiiProxy.Restoration.Memory

/-! The limiter of requests (`app/core/ratelimit.py`). `now` is the reading of `time.monotonic()` that a call makes. -/

namespace PiiProxy

structure SlidingWindowRateLimiter where
  maxRequests : Int
  windowSeconds : Time
  hits : OrderedDict Str (List Time)

namespace SlidingWindowRateLimiter

def new (maxRequests : Int) (windowSeconds : Time) : SlidingWindowRateLimiter where
  maxRequests
  windowSeconds
  hits := OrderedDict.empty

/-- `self._hits.setdefault(key, deque())` -/
def window (limiter : SlidingWindowRateLimiter) (key : Str) : List Time := (limiter.hits.get? key).getD []

/-- The loop that removes old hits from the front. -/
def prune (limiter : SlidingWindowRateLimiter) (key : Str) (now : Time) : List Time :=
  (limiter.window key).dropWhile fun hit => limiter.windowSeconds ≤ now - hit

def allow (limiter : SlidingWindowRateLimiter) (key : Str) (now : Time) : Bool × SlidingWindowRateLimiter :=
  let window := limiter.prune key now
  if (window.length : Int) ≥ limiter.maxRequests then (false, { limiter with hits := limiter.hits.set key window })
  else (true, { limiter with hits := limiter.hits.set key (window ++ [now]) })

/-- A call of a key at a time: the limiter after it, and the calls that have been allowed. -/
def step (s : SlidingWindowRateLimiter × List (Str × Time)) (call : Str × Time) :
    SlidingWindowRateLimiter × List (Str × Time) :=
  let answer := s.1.allow call.1 call.2
  (answer.2, if answer.1 then s.2 ++ [call] else s.2)

def run (limiter : SlidingWindowRateLimiter) (calls : List (Str × Time)) :
    SlidingWindowRateLimiter × List (Str × Time) :=
  calls.foldl step (limiter, [])

theorem run_snoc (limiter : SlidingWindowRateLimiter) (calls : List (Str × Time)) (call : Str × Time) :
    limiter.run (calls ++ [call]) = step (limiter.run calls) call := by
  rw [run, List.foldl_append]
  rfl

section
variable (limiter : SlidingWindowRateLimiter) (key : Str) (now : Time)

theorem allow_eq_true : (limiter.allow key now).1 = true ↔ ((limiter.prune key now).length : Int) < limiter.maxRequests := by
  unfold allow
  dsimp only
  split
  · rename_i hfull
    simpa using hfull
  · rename_i hroom
    simpa using hroom

/-- A call prunes the hits of its key, and adds one if it is allowed. -/
theorem window_allow (k : Str) :
    (limiter.allow key now).2.window k =
      if k = key then limiter.prune key now ++ (if (limiter.allow key now).1 then [now] else []) else limiter.window k := by
  have hset : ∀ hits : List Time, ((limiter.hits.set key hits).get? k).getD [] =
      if k = key then hits else limiter.window k := by
    intro hits
    rw [OrderedDict.get?_set]
    split <;> rfl
  unfold allow
  dsimp only
  split
  · rw [window, hset]
    simp
  · rw [window, hset]
    simp

theorem maxRequests_allow : (limiter.allow key now).2.maxRequests = limiter.maxRequests := by
  unfold allow
  dsimp only
  split <;> rfl

theorem windowSeconds_allow : (limiter.allow key now).2.windowSeconds = limiter.windowSeconds := by
  unfold allow
  dsimp only
  split <;> rfl

end

end SlidingWindowRateLimiter

end PiiProxy
