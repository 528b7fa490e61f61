import ReverseProxyLb.Balancer.World
import ReverseProxyLb.Lib.Scan

/-! One selection function for each algorithm of the registry. Scores and capacities, which
are floating-point numbers, are rational here; where they are close to a bound the code may
round them to the other side of it. -/
namespace ReverseProxyLb
open Lib

def roundRobin : Selection := withHealthy fun healthy w =>
  pickIndex healthy w.current { w with current := w.current + 1 }

def leastRound (w : World) (acc : Option Backend × ℤ) (b : Backend) : Option Backend × ℤ :=
  if w.getActiveConns b < acc.2 then (some b, w.getActiveConns b) else acc

/-- The scan starts from the largest `int`, so a nil selection is possible as far
as the code is concerned. -/
def leastConnections : Selection := withHealthy fun healthy w =>
  reserveSelected (healthy.foldl (leastRound w) (none, 2 ^ 63 - 1)).1 w

/-- The backend whose share of the weight line holds `sequence`. -/
def weightedScan (w : World) (sequence : UInt32) : UInt32 → List Backend → Option Backend
  | _, [] => none
  | current, b :: rest =>
    if w.getWeight b ≤ 0 then weightedScan w sequence current rest
    else
      let current := current + UInt32.ofNat (w.getWeight b).toNat
      if sequence < current then some b else weightedScan w sequence current rest

def weightedRoundRobin : Selection := withHealthy fun healthy w =>
  let totalWeight := (healthy.map fun b => if 0 < w.getWeight b then w.getWeight b else 0).sum
  if totalWeight = 0 then reserveSelected healthy.head? w
  else
    let index := w.current
    let w := { w with current := w.current + 1 }
    -- the total is narrowed to 32 bits, and a zero divisor panics
    if UInt32.ofNat totalWeight.toNat = 0 then (.panic, w)
    else
      let sequence := index % UInt32.ofNat totalWeight.toNat
      reserveSelected (weightedScan w sequence 0 healthy <|> healthy.head?) w

def effectiveWeight (w : World) (b : Backend) : ℤ := if w.getWeight b ≤ 0 then 1 else w.getWeight b

structure SmoothScan where
  total : ℤ := 0
  current : Backend → ℤ
  best : Option Backend := none

def smoothRound (w : World) (s : SmoothScan) (b : Backend) : SmoothScan :=
  let weight := effectiveWeight w b
  let current := Function.update s.current b (s.current b + weight)
  { total := s.total + weight
    current := current
    best := match s.best with
      | none => some b
      | some best => if current best < current b then some b else some best }

def swrr : Selection := withHealthy fun healthy w =>
  let s := healthy.foldl (smoothRound w) { current := w.currentWeight }
  match s.best <|> healthy.head? with
  | none => (.panic, w)
  | some best =>
    reserve best { w with
      currentWeight := Function.update s.current best (s.current best - s.total)
      weighed := healthy ∪ w.weighed }

def weightedLeastConn : Selection := withHealthy fun healthy w =>
  let score := fun b => (w.getActiveConns b : ℚ) / (effectiveWeight w b : ℚ)
  reserveSelected ((scanMin score none healthy).map Prod.fst) w

def randomScan (w : World) : ℤ → List Backend → Option Backend
  | _, [] => none
  | r, b :: rest =>
    let r := r - effectiveWeight w b
    if r < 0 then some b else randomScan w r rest

def weightedRandom : Selection := withHealthy fun healthy w =>
  let total := (healthy.map (effectiveWeight w)).sum
  let (r, w) := w.intn total.toNat
  reserveSelected (randomScan w r healthy <|> healthy.getLast?) w

def p2c : Selection := withHealthy fun healthy w =>
  if healthy.length = 1 then reserveSelected healthy.head? w
  else
    let (i, w) := w.intn healthy.length
    let (j, w) := w.intn (healthy.length - 1)
    let j := if i ≤ j then j + 1 else j
    match healthy[i]?, healthy[j]? with
    | some a, some b => reserve (if w.getActiveConns b < w.getActiveConns a then b else a) w
    | _, _ => (.panic, w)

def nextForIP (ip : String) : Selection := withHealthy fun healthy => pickIndex healthy (hashKey ip)

def ipHash : Selection := fun w =>
  (.error "IPHash requires client IP, use NextForIP instead", w)

def ewmaScore (w : World) (b : Backend) : ℚ :=
  match w.latency b with
  | none => 0
  | some value => value * (w.getActiveConns b + 1)

def ewma : Selection := withHealthy fun healthy w =>
  reserveSelected ((scanMin (ewmaScore w) none healthy).map Prod.fst) w

structure ConsistentHash where
  replicas : ℤ
  loadFactor : ℚ
  replicas_pos : 0 < replicas
  loadFactor_gt : 1 < loadFactor

def newConsistentHash (replicas : ℤ) (loadFactor : ℚ) : ConsistentHash where
  replicas := if replicas ≤ 0 then 100 else replicas
  loadFactor := if loadFactor ≤ 1 then 5 / 4 else loadFactor
  replicas_pos := by split <;> omega
  loadFactor_gt := by
    split_ifs with h
    · norm_num
    · exact not_le.mp h

def membershipSignature (healthy : List Backend) : String :=
  ((healthy.map Backend.url).insertionSort (· ≤ ·)).foldl
    (fun sig u => sig ++ (u ++ "|")) ""

def virtualNodes (c : ConsistentHash) (healthy : List Backend) : List (UInt32 × Backend) :=
  healthy.flatMap fun b =>
    (List.range c.replicas.toNat).map fun i => (hashKey (b.url ++ "#" ++ toString i), b)

def placeNode (ringMap : List (UInt32 × Backend)) (p : UInt32 × Backend) : List (UInt32 × Backend) :=
  if (ringMap.lookup p.1).isSome then ringMap else ringMap ++ [p]

def rebuildLocked (c : ConsistentHash) (healthy : List Backend) (sig : String) : Ring :=
  let ringMap := (virtualNodes c healthy).foldl placeNode []
  { ring := (ringMap.map Prod.fst).insertionSort (· ≤ ·)
    ringMap := ringMap
    ringKey := sig }

/-- The walk around the ring: the first member under its capacity, and otherwise
the first backend that the walk met. -/
def ringWalk (w : World) (healthy : List Backend) (capacity : ℤ) :
    Option Backend → List Backend → List (Option Backend) → Option Backend
  | fallback, _, [] => fallback
  | fallback, seen, none :: rest => ringWalk w healthy capacity fallback seen rest
  | fallback, seen, some b :: rest =>
    let fallback := fallback <|> some b
    if b ∉ healthy ∨ b ∈ seen then ringWalk w healthy capacity fallback seen rest
    else if w.getActiveConns b < capacity then some b
    else ringWalk w healthy capacity fallback (b :: seen) rest

/-- `int(x)`, which truncates. -/
def truncate (x : ℚ) : ℤ := x.num.tdiv x.den

def currentRing (c : ConsistentHash) (healthy : List Backend) (w : World) : Ring :=
  let sig := membershipSignature healthy
  if sig ≠ w.ring.ringKey ∨ w.ring.ring = [] then rebuildLocked c healthy sig else w.ring

def consistentHashForKey (c : ConsistentHash) (key : String) : Selection :=
  withHealthy fun healthy w =>
    let r := currentRing c healthy w
    let w := { w with ring := r }
    if r.ring = [] then (.error errNoHealthy, w)
    else
      let total := 1 + (healthy.map w.getActiveConns).sum
      let avg : ℚ := total / healthy.length
      let capacity := truncate (c.loadFactor * avg) + 1
      let start := r.ring.findIdx fun point => decide (hashKey key ≤ point)
      let start := if start = r.ring.length then 0 else start
      let points := (r.ring.rotate start).map fun point => r.ringMap.lookup point
      reserveSelected (ringWalk w healthy capacity none [] points <|> healthy.head?) w

def consistentHash (c : ConsistentHash) : Selection := fun w =>
  let (d, w) := w.draw
  consistentHashForKey c (toString (d % 2 ^ 32)) w

inductive Algorithm where
  | roundRobin
  | leastConnections
  | weightedRoundRobin
  | swrr
  | weightedLeastConn
  | weightedRandom
  | p2c
  | consistentHash (c : ConsistentHash)
  | ewma
  | ipHash

structure Options where
  consistentHashReplicas : ℤ
  consistentHashLoadFactor : ℚ

def newByAlgorithm (name : String) (opts : Options) : Except String Algorithm :=
  match name with
  | "round_robin" => .ok .roundRobin
  | "least_conn" => .ok .leastConnections
  | "weighted" => .ok .weightedRoundRobin
  | "swrr" => .ok .swrr
  | "weighted_least_conn" => .ok .weightedLeastConn
  | "weighted_random" => .ok .weightedRandom
  | "p2c" => .ok .p2c
  | "consistent_hash" =>
    .ok (.consistentHash (newConsistentHash opts.consistentHashReplicas opts.consistentHashLoadFactor))
  | "ewma" => .ok .ewma
  | "ip_hash" => .ok .ipHash
  | _ => .error ("unknown load-balancing algorithm: " ++ name.quote)

namespace Algorithm

def next : Algorithm → Selection
  | roundRobin => ReverseProxyLb.roundRobin
  | leastConnections => ReverseProxyLb.leastConnections
  | weightedRoundRobin => ReverseProxyLb.weightedRoundRobin
  | swrr => ReverseProxyLb.swrr
  | weightedLeastConn => ReverseProxyLb.weightedLeastConn
  | weightedRandom => ReverseProxyLb.weightedRandom
  | p2c => ReverseProxyLb.p2c
  | consistentHash c => ReverseProxyLb.consistentHash c
  | ewma => ReverseProxyLb.ewma
  | ipHash => ReverseProxyLb.ipHash

/-- `NextForKey`, for the algorithms that have it. -/
def nextForKey : Algorithm → Option (String → Selection)
  | consistentHash c => some (consistentHashForKey c)
  | ipHash => some nextForIP
  | _ => none

end Algorithm
end ReverseProxyLb
