import ReverseProxyLb.Balancer.Backend
import ReverseProxyLb.Base.Time

/-! The state that selection reads and writes, with what the random generators and the clock will
deliver. `getHealthy` is what the cached method returns when no writer disturbs it. -/
namespace ReverseProxyLb

/-- The hash ring of a `ConsistentHash`. -/
structure Ring where
  ring : List UInt32 := []
  ringMap : List (UInt32 × Backend) := []
  ringKey : String := ""
  deriving DecidableEq

/-- The maps of a `SlowStart`. -/
structure SlowStartState where
  wasHealthy : Backend → Option Bool := fun _ => none
  healthySince : Backend → Option ℤ := fun _ => none

structure OutlierStat where
  success : ℤ := 0
  failure : ℤ := 0
  ejected : Bool := false
  ejectedAt : ℤ := 0
  deriving DecidableEq

structure World where
  healthy : Backend → Bool := fun _ => true
  activeConns : Backend → Int32 := fun _ => 0
  weight : Backend → Int32 := fun _ => 1
  backends : List Backend := []
  /-- The counter of `RoundRobin` and `WeightedRoundRobin`. -/
  current : UInt32 := 0
  /-- The weights of `SWRR`; a missing entry counts as zero. -/
  currentWeight : Backend → ℤ := fun _ => 0
  /-- The backends with an entry in the map of the weights. -/
  weighed : List Backend := []
  /-- The latency averages of `EWMA`. -/
  latency : Backend → Option ℚ := fun _ => none
  ring : Ring := {}
  /-- The state of each `SlowStart`, by its address. -/
  slow : ℕ → SlowStartState := fun _ => {}
  /-- The map of `OutlierDetection`, one entry for each backend it has observed. -/
  stats : List (Backend × OutlierStat) := []
  /-- The maps of outlier detections that other wrappers stand around, by their address. -/
  nested : ℕ → List (Backend × OutlierStat) := fun _ => []
  draws : ℕ → ℕ := fun _ => 0
  clock : Clock := fun _ => 0

/-- A reserved backend, a nil backend without an error, an error, or a panic. -/
inductive Picked where
  | backend (b : Backend)
  | nil
  | error (msg : String)
  | panic
  deriving DecidableEq

abbrev Selection := World → Picked × World

namespace World

def getActiveConns (w : World) (b : Backend) : ℤ := (w.activeConns b).toInt

def getWeight (w : World) (b : Backend) : ℤ := (w.weight b).toInt

def incrConn (w : World) (b : Backend) : World :=
  { w with activeConns := Function.update w.activeConns b (w.activeConns b + 1) }

def decrConn (w : World) (b : Backend) : World :=
  { w with activeConns := Function.update w.activeConns b (w.activeConns b - 1) }

def getHealthy (w : World) : List Backend := w.backends.filter w.healthy

def now (w : World) : ℤ × World := (w.clock 0, { w with clock := fun n => w.clock (n + 1) })

def draw (w : World) : ℕ × World := (w.draws 0, { w with draws := fun n => w.draws (n + 1) })

/-- `rng.Intn(n)` for a positive `n`. -/
def intn (w : World) (n : ℕ) : ℕ × World := (w.draw.1 % n, w.draw.2)

/-- `rng.Float64()`, one of `2 ^ 53` values in `[0, 1)`. -/
def float64 (w : World) : ℚ × World := (((w.draw.1 % 2 ^ 53 : ℕ) : ℚ) / 2 ^ 53, w.draw.2)

end World

def errNoHealthy : String := "no healthy backends"

def reserve (b : Backend) : Selection := fun w => (.backend b, w.incrConn b)

def reserveSelected : Option Backend → Selection
  | some b => reserve b
  | none => fun w => (.nil, w)

def withHealthy (f : List Backend → Selection) : Selection := fun w =>
  if w.getHealthy = [] then (.error errNoHealthy, w) else f w.getHealthy w

/-- `l[i % uint32(len(l))]`, which panics when the length is a multiple of `2 ^ 32`. -/
def pickIndex (l : List Backend) (i : UInt32) : Selection := fun w =>
  if UInt32.ofNat l.length = 0 then (.panic, w)
  else match l[(i % UInt32.ofNat l.length).toNat]? with
    | some b => reserve b w
    | none => (.panic, w)

def hashKey (s : String) : UInt32 :=
  s.toUTF8.data.toList.foldl (fun h b => (h ^^^ b.toUInt32) * 16777619) 2166136261

end ReverseProxyLb
