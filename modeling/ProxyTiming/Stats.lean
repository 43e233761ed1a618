import ProxyTiming.Duration
import ProxyTiming.Binary64
import ProxyTiming.Phase

/-!
# Distribution of durations

A list of durations is summarised by its mean, three percentiles and its two
extremes.  The mean is computed on whole nanoseconds and is exact.  A percentile
lies between two neighbours of the sorted list, at a *rank* that is computed in
double precision, and so is the interpolation between the neighbours.
-/

namespace ProxyTiming

/-! ### Durations as doubles

Rates and reports want a duration as one double.  The seconds and the
nanoseconds are converted apart, the nanoseconds are scaled down, and the two
are added, with a rounding at each of these steps. -/

namespace Duration

def toSeconds (d : Duration) : Binary64 :=
  Binary64.ofNat d.secs + Binary64.ofNat d.nanos / Binary64.ofNat nanosPerSec

def toMilliseconds (d : Duration) : Binary64 := d.toSeconds * Binary64.ofNat 1000

end Duration

/-! ### Summaries -/

structure Stats where
  mean : Duration
  p50 : Duration
  p95 : Duration
  p99 : Duration
  min : Duration
  max : Duration
deriving DecidableEq

namespace Stats

def zero : Stats := ⟨.zero, .zero, .zero, .zero, .zero, .zero⟩

def meanMs (s : Stats) : Binary64 := s.mean.toMilliseconds

end Stats

def ascending (ds : List Duration) : List Duration :=
  ds.mergeSort fun a b => decide (a ≤ b)

def totalNanos : List Duration → Nat
  | [] => 0
  | d :: ds => d.toNanos + totalNanos ds

/-- The rank of the `p`-th percentile in a list with indices `0 … last`. -/
def percentileRank (last : Nat) (p : Binary64) : Binary64 :=
  p / Binary64.ofNat 100 * Binary64.ofNat last

/-- The duration at a fraction of the way from `lo` to `hi`, to the nearest nanosecond. -/
def interpolate (lo hi : Duration) (fraction : Binary64) : Duration :=
  let a := Binary64.ofNat lo.toNanos
  let b := Binary64.ofNat hi.toNanos
  Duration.ofNanos (a + fraction * (b - a)).roundNat

/-- The `p`-th percentile, from 0 to 100, of an ascending list: interpolated between the two
nearest ranks, and an extreme of the list for a `p` outside of that range. -/
def percentile (sorted : List Duration) (p : Binary64) : Duration :=
  let last := sorted.length - 1
  if p.atMost 0 then sorted[0]?.getD .zero
  else if p.atLeast 100 then sorted[last]?.getD .zero
  else
    let rank := percentileRank last p
    let lower := rank.floorNat
    if last < lower + 1 then sorted[lower]?.getD .zero
    else
      interpolate (sorted[lower]?.getD .zero) (sorted[lower + 1]?.getD .zero)
        (rank - Binary64.ofNat lower)

def summarize (ds : List Duration) : Stats :=
  if ds.isEmpty then Stats.zero
  else
    let sorted := ascending ds
    { mean := Duration.ofNanos (totalNanos ds / ds.length)
      p50 := percentile sorted (Binary64.ofNat 50)
      p95 := percentile sorted (Binary64.ofNat 95)
      p99 := percentile sorted (Binary64.ofNat 99)
      min := sorted[0]?.getD .zero
      max := sorted[sorted.length - 1]?.getD .zero }

/-! ### Differences of means -/

/-- Mean difference of one phase between two runs. -/
structure Difference where
  /-- Candidate mean minus baseline mean, in nanoseconds. -/
  absoluteNanos : Int
  /-- The difference in percent of the baseline mean, or zero when that is zero. -/
  percentage : Binary64
deriving DecidableEq

def maxSigned : Int := 9223372036854775807

def clampSigned (n : Int) : Int := max (-maxSigned - 1) (min n maxSigned)

namespace Difference

/-- The nanoseconds of a duration, as far as a signed number of 64 bits reaches. -/
def signedNanos (d : Duration) : Int := min (d.toNanos : Int) maxSigned

def between (baseline candidate : Duration) : Difference :=
  let base := signedNanos baseline
  let absolute := clampSigned (signedNanos candidate - base)
  { absoluteNanos := absolute
    percentage :=
      if 0 < base then
        Binary64.ofInt absolute / Binary64.ofInt base * Binary64.ofNat 100
      else .finite 0 }

def absoluteMs (d : Difference) : Binary64 :=
  Binary64.ofInt d.absoluteNanos / Binary64.ofNat 1000000

end Difference

def compareStats (baseline candidate : PhaseTable Stats) : PhaseTable Difference :=
  fun phase =>
    match baseline phase, candidate phase with
    | some base, some cand => some (Difference.between base.mean cand.mean)
    | _, _ => none

end ProxyTiming
