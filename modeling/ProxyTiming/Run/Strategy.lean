import ProxyTiming.Duration

/-!
# How trials are admitted

Trials are admitted through a gate that lets a fixed number of workers through
at a time.  The two strategies differ in the width of the gate, and in whether a
worker rests after its trial before it gives its place back.
-/

namespace ProxyTiming.Run

inductive Strategy where
  /-- A small pool whose workers rest for `interval` after each trial. -/
  | sequential (workers : Nat) (interval : Duration)
  /-- A number of trials in flight at once. -/
  | concurrent (concurrency : Nat)
deriving DecidableEq

namespace Strategy

def defaultWorkers : Nat := 10

def ofInterval (interval : Duration) : Strategy := .sequential defaultWorkers interval

/-- The width of the gate, at least one. -/
def width : Strategy → Nat
  | sequential workers _ => max workers 1
  | concurrent concurrency => max concurrency 1

theorem one_le_width (s : Strategy) : 1 ≤ s.width := by
  cases s <;> exact Nat.le_max_right _ _

def interval : Strategy → Duration
  | sequential _ interval => interval
  | concurrent _ => .zero

def label : Strategy → String
  | sequential _ _ => "sequential"
  | concurrent _ => "concurrent"

end Strategy

def maxWidth : Nat := 2305843009213693951

def tooWideMessage : String :=
  "a semaphore may not have more than MAX_PERMITS permits (" ++ toString maxWidth ++ ")"

end ProxyTiming.Run
