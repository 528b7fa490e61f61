import Mathlib.Tactic

/-! Backends are objects: the fixed fields are part of the value, with the address that
tells objects apart; what changes is in the state of the component that changes it. -/
namespace ReverseProxyLb

/-- The fields of a configured backend that are read when it is built. -/
structure BackendConfig where
  url : String
  weight : ℤ := 1
  maxConns : ℤ := 0
  zone : String := ""
  tier : ℤ := 0
  deriving DecidableEq, Repr

structure Backend where
  addr : ℕ
  url : String := ""
  maxConns : ℤ := 0
  zone : String := ""
  tier : ℤ := 0
  deriving DecidableEq, Repr

def newBackend (addr : ℕ) (cfg : BackendConfig) : Backend where
  addr := addr
  url := cfg.url
  maxConns := cfg.maxConns
  zone := cfg.zone
  tier := cfg.tier

end ReverseProxyLb
