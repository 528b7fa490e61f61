import ReverseProxyLb.Routing.Router
import ReverseProxyLb.Server.Setup

/-! The backends and the load balancer section of the file, as `Load` fills them in and
checks them. The defaults cannot tell an undeclared field from one that is declared as zero.
-/
namespace ReverseProxyLb.ConfigFile
open Health Routing Server

/-- A backend in the file, with the fields that it declares. -/
structure FileBackend where
  url : String := ""
  weight : Option ℤ := none
  maxConns : Option ℤ := none
  zone : String := ""
  tier : ℤ := 0
  healthCheck : Option HealthCheckConfig := none

structure File where
  backends : List FileBackend := []
  zone : String := ""
  loadBalancer : LoadBalancerConfig := { algorithm := "" }

structure Loaded where
  backends : List BackendEntry
  zone : String
  loadBalancer : LoadBalancerConfig

def FileBackend.decode (fb : FileBackend) : BackendEntry where
  url := fb.url
  weight := fb.weight.getD 0
  maxConns := fb.maxConns.getD 0
  zone := fb.zone
  tier := fb.tier
  healthCheck := fb.healthCheck

def File.decode (file : File) : Loaded where
  backends := file.backends.map FileBackend.decode
  zone := file.zone
  loadBalancer := file.loadBalancer

def applyHealthCheckDefaults (hc : HealthCheckConfig) : HealthCheckConfig :=
  { hc with
    healthyThreshold := if hc.healthyThreshold ≤ 0 then 2 else hc.healthyThreshold
    unhealthyThreshold := if hc.unhealthyThreshold ≤ 0 then 3 else hc.unhealthyThreshold }

def applyBackendDefaults (bc : BackendEntry) : BackendEntry :=
  { bc with
    weight := if bc.weight = 0 then 1 else bc.weight
    maxConns := if bc.maxConns = 0 then 100 else bc.maxConns
    healthCheck := bc.healthCheck.map applyHealthCheckDefaults }

def applyLoadBalancerDefaults (lb : LoadBalancerConfig) : LoadBalancerConfig :=
  { lb with
    algorithm := if lb.algorithm = "" then "round_robin" else lb.algorithm
    consistentHash :=
      { consistentHashReplicas :=
          if lb.consistentHash.consistentHashReplicas = 0 then 100
            else lb.consistentHash.consistentHashReplicas
        consistentHashLoadFactor :=
          if lb.consistentHash.consistentHashLoadFactor = 0 then 5 / 4
          else lb.consistentHash.consistentHashLoadFactor } }

def applyDefaults (cfg : Loaded) : Loaded :=
  { cfg with
    backends := cfg.backends.map applyBackendDefaults
    loadBalancer := applyLoadBalancerDefaults cfg.loadBalancer }

def validAlgorithms : List String :=
  ["round_robin", "least_conn", "weighted", "ip_hash", "swrr", "p2c", "weighted_least_conn",
    "weighted_random",
    "consistent_hash", "ewma"]

section Validate

-- `url.Parse`: the scheme and the host
variable (parse : String → Option (String × String))

def label (i : ℕ) : String := "backend[" ++ toString i ++ "]"

def validateBackend (i : ℕ) (b : BackendEntry) : Except String Unit :=
  match parse b.url with
  | none => .error ("config: " ++ label i ++ " has invalid url " ++ b.url.quote)
  | some (scheme, host) =>
    if scheme = "" ∨ host =
      "" then .error ("config: " ++ label i ++ " has invalid url " ++ b.url.quote)
    else if scheme ≠ "http" ∧ scheme ≠ "https" then
      .error ("config: " ++ label i ++ " url " ++ b.url.quote ++ " must be http or https")
    else if b.weight < 0 then .error ("config: " ++ label i ++ " weight must be >= 0")
    else if b.maxConns < 0 then .error ("config: " ++ label i ++ " max_conns must be >= 0")
    else .ok ()

def validateHealthCheck (hc : HealthCheckConfig) (label : String) : Except String Unit :=
  if hc.healthyThreshold < 1 then .error ("config: " ++ label ++ ".healthy_threshold must be >= 1")
  else if hc.unhealthyThreshold <
    1 then .error ("config: " ++ label ++ ".unhealthy_threshold must be >= 1")
  else .ok ()

def validateTier (i : ℕ) (b : BackendEntry) : Except String Unit :=
  if b.tier < 0 then .error ("config: " ++ label i ++ " tier must be >= 0")
  else match b.healthCheck with
    | none => .ok ()
    | some hc => validateHealthCheck hc (label i ++ ".health_check")

def validateEach (check : ℕ → BackendEntry → Except String Unit) :
    ℕ → List BackendEntry → Except String Unit
  | _, [] => .ok ()
  | i, b :: rest => do
    check i b
    validateEach check (i + 1) rest

def validate (cfg : Loaded) : Except String Unit := do
  if cfg.backends = [] then throw "config: at least one backend is required"
  if cfg.loadBalancer.algorithm ∉ validAlgorithms then
    throw ("config: unknown load_balancer.algorithm " ++ cfg.loadBalancer.algorithm.quote)
  validateEach (validateBackend parse) 0 cfg.backends
  if cfg.loadBalancer.slowStart < 0 then throw "config: load_balancer.slow_start must be >= 0"
  validateEach validateTier 0 cfg.backends

def load (file : File) : Except String Loaded := do
  let cfg := applyDefaults file.decode
  validate parse cfg
  return cfg

end Validate

variable {parse : String → Option (String × String)}

theorem bind_eq_ok {ε α β : Type} {x : Except ε α} {f : α → Except ε β} {b : β} (h : x >>= f = .ok b) :
    ∃ a, x = .ok a ∧ f a = .ok b := by
  cases x with
  | error e => cases h
  | ok a => exact ⟨a, rfl, h⟩

theorem validateEach_ok {check : ℕ → BackendEntry → Except String Unit} {i : ℕ} {l : List BackendEntry}
    (h : validateEach check i l = .ok ()) : ∀ b ∈ l, ∃ j, check j b = .ok () := by
  induction l generalizing i with
  | nil => exact fun b hb => nomatch hb
  | cons a l ih =>
    obtain ⟨⟨⟩, ha, hl⟩ := bind_eq_ok h
    intro b hb
    rcases List.mem_cons.mp hb with rfl | hb
    · exact ⟨i, ha⟩
    · exact ih hl b hb

theorem validateBackend_ok {i : ℕ} {b : BackendEntry} (h : validateBackend parse i b = .ok ()) :
    0 ≤ b.weight ∧ 0 ≤ b.maxConns := by
  unfold validateBackend at h
  split at h
  · cases h
  · split_ifs at h with _ _ hweight hmaxConns
    exact ⟨not_lt.mp hweight, not_lt.mp hmaxConns⟩

theorem load_ok {file : File} {cfg : Loaded} (h : load parse file = .ok cfg) :
    cfg = applyDefaults file.decode ∧ validate parse cfg = .ok () := by
  obtain ⟨⟨⟩, hvalid, hcfg⟩ := bind_eq_ok h
  cases hcfg
  exact ⟨rfl, hvalid⟩

theorem weight_applyDefaults {fb : FileBackend} (h : fb.weight.getD 0 = 0) :
    (applyBackendDefaults fb.decode).weight = 1 := if_pos h

def anyURL : String → Option (String × String) := fun _ => some ("http", "host")

end ReverseProxyLb.ConfigFile
