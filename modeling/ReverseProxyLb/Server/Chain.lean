import ReverseProxyLb.Lib.Gate
import ReverseProxyLb.Limiter.Rules
import ReverseProxyLb.Middleware.Mirror
import ReverseProxyLb.Writers.Wrappers

/-! `setupHTTPServer` puts access control, authentication, rewriting, injected faults and the
bound on the body in front of the limiter. Outside of `CORS`, `Admission` bounds how many requests
are let in, and the other layers watch a request or put headers on it and on its response. -/
namespace ReverseProxyLb.Server
open Lib Limiter Netutil Text Middleware

/-- A request on its way, with the readings and the draws that are made for it. -/
structure Incoming where
  arrival : Arrival
  tls : Bool := false
  body : Option Mirror.Body := none
  contentLength : ℤ := 0
  /-- The buffers that `Mirror` reads the body with. -/
  sizes : ℕ → ℕ+ := fun _ => 512
  mirrorDraw : ℤ := 0
  delayDraw : ℤ := 0
  abortDraw : ℤ := 0
  /-- The client goes away during an injected delay. -/
  gone : Bool := false

def Incoming.request (x : Incoming) : Request := x.arrival.request

inductive ChainReply where
  | preflight
  | forbidden (status : ℤ) (text : String)
  | unauthorized
  | unavailable
  | redirected
  | abandoned
  | aborted (status : ℤ)
  | tooLarge
  | limited (refusal : Refusal)
  | passed (r : Request)

def ChainReply.metered : ChainReply → Bool
  | .limited _ => true
  | .passed _ => true
  | _ => false

structure AuthConfig where
  type : String := ""
  users : List (String × String) := []
  apiKeys : List String := []
  header : String := ""

/-- `config.RewriteConfig`, as far as it is about requests. -/
structure RewriteConfig where
  requestHeadersSet : List (String × String) := []
  requestHeadersRemove : List String := []
  stripPathPrefix : String := ""
  httpsRedirect : Bool := false

structure FaultConfig where
  enabled : Bool := false
  delay : ℤ := 0
  delayPercent : ℤ := 0
  abortPercent : ℤ := 0
  abortStatus : ℤ := 0

/-- The parts of the configuration that the chain is built from. -/
structure ChainConfig where
  cors : Bool := false
  acl : ACLConfig := {}
  auth : AuthConfig := {}
  oidcIntrospection : Bool := false
  rewrite : RewriteConfig := {}
  faultInjection : FaultConfig := {}
  mirror : Mirror.MirrorConfig := {}
  maxRequestBodyBytes : ℤ := 0
  /-- The rate limiter section, if it is enabled. -/
  rateLimiter : Option RateLimiterConfig := none

/-- A codec, the verifier of JWTs and the one that asks the introspection endpoint. The last two
keep a state. -/
structure Verifiers (A : Type) where
  base64 : String → Option String
  verify : Incoming → String → A → Bool × A
  validate : Incoming → String → A → Option Bool × A

structure ChainState (P : RatePackage) (A : Type) where
  limiter : RateLimiter P
  auth : A

abbrev Handler (P : RatePackage) (A : Type) := Incoming → ChainState P A → ChainReply × ChainState P A

variable {P : RatePackage} {A : Type}

def isPreflight (r : Request) : Bool :=
  r.header.get "Origin" != "" && r.method == "OPTIONS" &&
    r.header.get "Access-Control-Request-Method" != ""

/-- What follows the scheme in the `Authorization` header. -/
def credentials (scheme : String) (r : Request) : Option String :=
  let h := (r.header.get "Authorization").toList
  if equalFold (String.ofList (h.take scheme.length)) scheme then
    some (String.ofList (h.drop scheme.length))
  else none

def bearerToken (r : Request) : Option String :=
  (credentials "Bearer " r).bind fun rest => if rest = "" then none else some (trimSpace rest)

def basicAuth (base64 : String → Option String) (cfg : AuthConfig) (r : Request) : Bool :=
  match ((credentials "Basic " r).bind base64).map fun s => s.toList.span (· ≠ ':') with
  | some (user, _ :: pass) => cfg.users.lookup (String.ofList user) == some (String.ofList pass)
  | _ => false

def apiKeyAuth (cfg : AuthConfig) (r : Request) : Bool :=
  let got := r.header.get (if cfg.header = "" then "X-API-Key" else cfg.header)
  got != "" && cfg.apiKeys.contains got

/-- `Auth`: whether the request is let through, and what the verifier keeps. -/
def authorize (std : Verifiers A) (cfg : AuthConfig) (x : Incoming) (a : A) : Bool × A :=
  match toLower (trimSpace cfg.type) with
  | "basic" => (basicAuth std.base64 cfg x.request, a)
  | "apikey" => (apiKeyAuth cfg x.request, a)
  | "jwt" =>
    match bearerToken x.request with
    | some token => std.verify x token a
    | none => (false, a)
  | _ => (true, a)

/-- `OIDCIntrospect`: the reply to a request that is not let through. -/
def introspect (std : Verifiers A) (enabled : Bool) (x : Incoming) (a : A) : Option ChainReply × A :=
  if !enabled then (none, a)
  else
    match bearerToken x.request with
    | none => (some .unauthorized, a)
    | some token =>
      match std.validate x token a with
      | (none, a) => (some .unavailable, a)
      | (some active, a) => (if active then none else some .unauthorized, a)

def requestIsHTTPS (x : Incoming) : Bool :=
  x.tls || equalFold (x.request.header.get "X-Forwarded-Proto") "https"

/-- The path that `stripRequestPath` leaves. -/
def stripRequestPath (path lead : String) : String :=
  match after? lead path with
  | none => path
  | some trimmed => if trimmed.toList.head? = some '/' then trimmed else "/" ++ trimmed

/-- What `Rewrite` makes of a request that it does not redirect. -/
def rewriteRequest (cfg : RewriteConfig) (r : Request) : Request :=
  let removed := cfg.requestHeadersRemove.foldl Header.del r.header
  { r with
    header := cfg.requestHeadersSet.foldl (fun h field => h.set field.1 field.2) removed
    path := if cfg.stripPathPrefix ≠ "" then stripRequestPath r.path cfg.stripPathPrefix else r.path }

def Incoming.rewritten (cfg : RewriteConfig) (x : Incoming) : Incoming :=
  { x with arrival := { x.arrival with request := rewriteRequest cfg x.request } }

/-- `FaultInjection`: the end that it puts to a request. -/
def fault (cfg : FaultConfig) (x : Incoming) : Option ChainReply :=
  if !cfg.enabled then none
  else if 0 < cfg.delay ∧ Mirror.sampleHit cfg.delayPercent x.delayDraw ∧ x.gone then some .abandoned
  else if Mirror.sampleHit cfg.abortPercent x.abortDraw then
    some (.aborted (if cfg.abortStatus ≤ 0 then 503 else cfg.abortStatus))
  else none

def Incoming.mirrored (cfg : Mirror.MirrorConfig) (x : Incoming) : Incoming :=
  { x with body := (Mirror.mirror cfg x.mirrorDraw x.sizes x.body).1 }

/-- `MaxBytes`, without the reader that it puts around the body. -/
def tooLarge (limit : ℤ) (x : Incoming) : Option ChainReply :=
  if 0 < limit ∧ x.body.isSome ∧ limit < x.contentLength then some .tooLarge else none

def maxRequestBodyBytes : ℤ := 10 * 2 ^ 20

def ChainConfig.maxBody (cfg : ChainConfig) : ℤ :=
  if cfg.maxRequestBodyBytes = 0 then Server.maxRequestBodyBytes else cfg.maxRequestBodyBytes

section Chain
variable (net : Parsers) (trusted : List IPNet) (std : Verifiers A) (cfg : ChainConfig)

def screen (answer : Incoming → Option ChainReply) : Handler P A → Handler P A :=
  gate (fun x s => (answer x, s)) id

def cors : Handler P A → Handler P A :=
  screen fun x => if cfg.cors && isPreflight x.request then some .preflight else none

def aclLayer : Handler P A → Handler P A :=
  screen fun x => (acl net cfg.acl trusted x.request).map fun refused => .forbidden refused.1 refused.2

def auth : Handler P A → Handler P A :=
  gate (fun x s =>
    let out := authorize std cfg.auth x s.auth
    (if !out.1 then some .unauthorized else none, { s with auth := out.2 })) id

def oidcIntrospect : Handler P A → Handler P A :=
  gate (fun x s =>
    let out := introspect std cfg.oidcIntrospection x s.auth
    (out.1, { s with auth := out.2 })) id

def rewrite : Handler P A → Handler P A :=
  gate (fun x s => (if cfg.rewrite.httpsRedirect && !requestIsHTTPS x then some .redirected
    else none, s))
    (Incoming.rewritten cfg.rewrite)

def faultInjection : Handler P A → Handler P A := screen (fault cfg.faultInjection)

def mirrored : Handler P A → Handler P A := gate (fun _ s => (none, s)) (Incoming.mirrored cfg.mirror)

def maxBytes (limit : ℤ) : Handler P A → Handler P A := screen (tooLarge limit)

def rateLimited (rcfg : RateLimiterConfig) : Handler P A → Handler P A :=
  gate (fun x s =>
    let out := rateLimit net rcfg trusted s.limiter x.arrival
    (out.1.map .limited, { s with limiter := out.2 })) id

def proxy : Handler P A := fun x s => (.passed x.request, s)

def behind : Handler P A :=
  match cfg.rateLimiter with
  | some rcfg => rateLimited net trusted rcfg proxy
  | none => proxy

def transforms (handler : Handler P A) : Handler P A :=
  let handler := maxBytes cfg.maxBody handler
  let handler := mirrored cfg handler
  let handler := faultInjection cfg handler
  rewrite cfg handler

/-- The chain from `CORS` inwards. -/
def setupHTTPServer : Handler P A :=
  let handler := behind net trusted cfg
  let handler := transforms cfg handler
  let handler := oidcIntrospect std cfg handler
  let handler := auth std cfg handler
  let handler := aclLayer net trusted cfg handler
  cors cfg handler

/-- No transformation ends the request, and its body is not too large. -/
structure Transformed (x : Incoming) : Prop where
  https : cfg.rewrite.httpsRedirect = true → requestIsHTTPS x = true
  stays : cfg.faultInjection.enabled = true → 0 < cfg.faultInjection.delay →
    Mirror.sampleHit cfg.faultInjection.delayPercent x.delayDraw = true → x.gone = false
  spared : cfg.faultInjection.enabled = true →
    Mirror.sampleHit cfg.faultInjection.abortPercent x.abortDraw = false
  size : 0 < cfg.maxBody → x.body.isSome = true → x.contentLength ≤ cfg.maxBody

/-- The request is let through by every layer in front of the limiter. -/
structure Admitted (x : Incoming) (a : A) : Prop extends Transformed cfg x where
  cors : cfg.cors = true → isPreflight x.request = false
  acl : acl net cfg.acl trusted x.request = none
  auth : (authorize std cfg.auth x a).1 = true
  token : cfg.oidcIntrospection = true → ∃ token, bearerToken x.request = some token ∧
    (std.validate x token (authorize std cfg.auth x a).2).1 = some true

end Chain

variable {net : Parsers} {trusted : List IPNet} {std : Verifiers A} {cfg : ChainConfig}

abbrev Early (reply : ChainReply) : Prop := reply.metered = false

theorem guards_screen {h next : Handler P A} {admits : Incoming → ChainState P A → Prop}
    {out : Incoming → Incoming} (hg : Guards Early ChainState.limiter next h admits out)
    (answer : Incoming → Option ChainReply) (hearly : ∀ x r, answer x = some r → Early r) :
    Guards Early ChainState.limiter next
      (screen answer h) (fun x s => answer x = none ∧ admits x s) out :=
  hg.gate (fun _ _ => rfl) (fun x _ r hr => hearly x r hr)

theorem early_of_ite {p : Prop} [Decidable p] {r r' : ChainReply} (hr : Early r)
    (h : (if p then some r else none) = some r') : Early r' := by
  split_ifs at h
  cases h
  exact hr

theorem introspect_early {enabled : Bool} {x : Incoming} {a : A} {r : ChainReply}
    (h : (introspect std enabled x a).1 = some r) : Early r := by
  unfold introspect at h
  split_ifs at h
  split at h
  · cases h
    rfl
  · split at h
    · cases h
      rfl
    · split_ifs at h
      cases h
      rfl

theorem introspect_eq_none {enabled : Bool} {x : Incoming} {a : A} :
    (introspect std enabled x a).1 = none ↔ (enabled = true →
      ∃ token, bearerToken x.request = some token ∧ (std.validate x token a).1 = some true) := by
  unfold introspect
  cases enabled with
  | false => simp
  | true =>
    cases bearerToken x.request with
    | none => simp
    | some token =>
      cases hout : std.validate x token a with
      | mk active a' => rcases active with _ | _ | _ <;> simp [hout]

theorem fault_early {fcfg : FaultConfig} {x : Incoming} {r : ChainReply} (h : fault fcfg x = some r) :
    Early r := by
  unfold fault at h
  split_ifs at h <;> cases h <;> rfl

theorem fault_eq_none {fcfg : FaultConfig} {x : Incoming} : fault fcfg x = none ↔
    (fcfg.enabled = true → 0 < fcfg.delay → Mirror.sampleHit fcfg.delayPercent x.delayDraw = true →
      x.gone = false) ∧
      (fcfg.enabled = true → Mirror.sampleHit fcfg.abortPercent x.abortDraw = false) := by
  unfold fault
  split_ifs <;> simp_all

theorem tooLarge_eq_none {limit : ℤ} {x : Incoming} :
    tooLarge limit (x.mirrored cfg.mirror) = none ↔
      (0 < limit → x.body.isSome = true → x.contentLength ≤ limit) := by
  simp [tooLarge, Incoming.mirrored, Mirror.mirror_isSome]

theorem guards_transforms (next : Handler P A) (cfg : ChainConfig) :
    Guards Early ChainState.limiter next (transforms cfg next) (fun x _ => Transformed cfg x)
      (fun x => (x.rewritten cfg.rewrite).mirrored cfg.mirror) := by
  have hsize := guards_screen (guards_self Early ChainState.limiter next) (tooLarge cfg.maxBody)
    fun _ _ => early_of_ite rfl
  have hmirror : Guards Early ChainState.limiter next (mirrored cfg (maxBytes cfg.maxBody next)) _ _ :=
    hsize.gate (fun _ _ => rfl) (fun _ _ _ h => nomatch h)
  have hfault := guards_screen hmirror (fault cfg.faultInjection) fun _ _ => fault_early
  have hrewrite : Guards Early ChainState.limiter next (transforms cfg next) _ _ :=
    hfault.gate (fun _ _ => rfl) (fun _ _ _ => early_of_ite rfl)
  refine hrewrite.congr fun x s => ?_
  constructor
  · intro h
    exact ⟨by simpa using h.https, fault_eq_none.mpr ⟨h.stays,
      h.spared⟩, rfl, tooLarge_eq_none.mpr h.size, trivial⟩
  · rintro ⟨hhttps, hfault, -, hsize, -⟩
    exact ⟨by simpa using hhttps, (fault_eq_none.mp hfault).1, (fault_eq_none.mp
      hfault).2, tooLarge_eq_none.mp hsize⟩

theorem guards_setupHTTPServer (net : Parsers) (trusted : List IPNet) (std : Verifiers A)
    (cfg : ChainConfig) :
    Guards Early ChainState.limiter
      (behind (P := P) net trusted cfg) (setupHTTPServer net trusted std cfg)
      (fun x s => Admitted net trusted std cfg x s.auth)
      (fun x => (x.rewritten cfg.rewrite).mirrored cfg.mirror) := by
  have htoken : Guards Early ChainState.limiter (behind (P := P) net trusted cfg)
      (oidcIntrospect std cfg (transforms cfg (behind net trusted cfg))) _ _ :=
    (guards_transforms (behind net trusted cfg) cfg).gate (fun _ _ => rfl) fun x s r h => by
      dsimp only at h
      exact introspect_early h
  have hauth : Guards Early ChainState.limiter (behind net trusted cfg)
      (auth std cfg (oidcIntrospect std cfg (transforms cfg (behind net trusted cfg)))) _ _ :=
    htoken.gate (fun _ _ => rfl) fun x s r h => by
      dsimp only at h
      exact early_of_ite rfl h
  have hacl := guards_screen hauth
    (fun x => (acl net cfg.acl trusted x.request).map fun refused => .forbidden refused.1 refused.2)
    fun _ _ h => by
      obtain ⟨refused, -, rfl⟩ := Option.map_eq_some_iff.mp h
      rfl
  have hcors := guards_screen hacl
    (fun x => if cfg.cors && isPreflight x.request then some .preflight else none)
    fun _ _ => early_of_ite rfl
  unfold setupHTTPServer cors aclLayer
  refine hcors.congr fun x s => ?_
  simp only [id, introspect_eq_none, ite_eq_right_iff, reduceCtorEq, imp_false, Option.map_eq_none_iff,
    Bool.and_eq_true, not_and, Bool.not_eq_true, Bool.not_eq_eq_eq_not, Bool.not_true,
      Bool.not_eq_false]
  constructor
  · intro h
    exact ⟨h.cors, h.acl, h.auth, h.token, h.toTransformed⟩
  · rintro ⟨hcors, hacl, hauth, htoken, hrest⟩
    exact ⟨hrest, hcors, hacl, hauth, htoken⟩

theorem rateLimited_proxy (net : Parsers) (trusted : List IPNet) (rcfg : RateLimiterConfig)
    (x : Incoming) (s : ChainState P A) :
    (rateLimited net trusted rcfg proxy x s).1.metered = true ∧
      (rateLimited net trusted rcfg proxy x s).2.limiter =
        (rateLimit net rcfg trusted s.limiter x.arrival).2 ∧
      ∀ r, (rateLimited net trusted rcfg proxy x s).1 = .passed r → r = x.request := by
  unfold rateLimited
  cases hout : (rateLimit net rcfg trusted s.limiter x.arrival).1 with
  | none =>
    rw [gate_of_none (by simp only [hout, Option.map_none])]
    refine ⟨rfl, rfl, fun r hr => ?_⟩
    cases hr
    rfl
  | some refusal =>
    rw [gate_of_some (r := .limited refusal) (by simp only [hout, Option.map_some])]
    exact ⟨rfl, rfl, fun r hr => nomatch hr⟩

def noVerifiers : Verifiers Unit := ⟨fun _ => none, fun _ _ _ => (false, ()), fun _ _ _ => (none, ())⟩

def keyed : ChainConfig where
  auth := { type := "apikey", apiKeys := ["k"] }
  maxRequestBodyBytes := 10
  rateLimiter := some {}

def Blocked (cfg : ACLConfig) (path : String) : Prop :=
  ∃ b ∈ cfg.blockedPaths, trimSpace b ≠ "" ∧ (after? (trimSpace b) path).isSome = true

theorem not_blocked_of_acl {cfg : ACLConfig} {r : Request} (h : acl net cfg trusted r = none) :
    ¬ Blocked cfg r.path := by
  rintro ⟨b, hb, hne, hafter⟩
  have hsome : cfg.blockedPaths.length ≠ 0 := (List.length_pos_of_mem hb).ne'
  have hany : ((cfg.blockedPaths.map trimSpace).filter (· ≠ "")).any
      (fun p => (after? p r.path).isSome) = true :=
    List.any_eq_true.mpr
      ⟨trimSpace b, List.mem_filter.mpr ⟨List.mem_map_of_mem hb, by simpa using hne⟩, hafter⟩
  unfold acl at h
  simp only [hsome, and_false, if_false] at h
  split_ifs at h

theorem behind_passed {s : ChainState P A} {x : Incoming} {r : Request}
    (h : (behind net trusted cfg x s).1 = .passed r) : r = x.request := by
  unfold behind at h
  cases hlimiter : cfg.rateLimiter with
  | none =>
    rw [hlimiter] at h
    cases h
    rfl
  | some rcfg =>
    rw [hlimiter] at h
    exact (rateLimited_proxy ..).2.2 r h

theorem setupHTTPServer_passed {s : ChainState P A} {x : Incoming} {r : Request}
    (h : (setupHTTPServer net trusted std cfg x s).1 = .passed r) :
    Admitted net trusted std cfg x s.auth ∧ r = rewriteRequest cfg.rewrite x.request := by
  have hguards := guards_setupHTTPServer (P := P) net trusted std cfg
  by_cases hadmitted : Admitted net trusted std cfg x s.auth
  · obtain ⟨s', -, heq⟩ := hguards.pass x s hadmitted
    refine ⟨hadmitted, ?_⟩
    rw [heq] at h
    exact behind_passed h
  · obtain ⟨reply, s', hearly, -, heq⟩ := hguards.stop x s hadmitted
    rw [heq] at h
    cases h
    cases hearly

/-- A blocked path comes through the chain only behind the prefix that is stripped off it. -/
theorem passed_blocked_path (net : Parsers) (trusted : List IPNet) (std : Verifiers A)
    (cfg : ChainConfig) (s : ChainState P A) (x : Incoming) (r : Request)
    (hpassed : (setupHTTPServer net trusted std cfg x s).1 = .passed r)
    (hblocked : Blocked cfg.acl r.path) :
    cfg.rewrite.stripPathPrefix ≠ "" ∧
      (after? cfg.rewrite.stripPathPrefix x.request.path).isSome = true ∧
      r.path = stripRequestPath x.request.path cfg.rewrite.stripPathPrefix ∧
        ¬ Blocked cfg.acl x.request.path := by
  obtain ⟨hadmitted, rfl⟩ := setupHTTPServer_passed hpassed
  have hclear := not_blocked_of_acl hadmitted.acl
  -- The path is not the one that access control has seen.
  have hpath : (rewriteRequest cfg.rewrite x.request).path ≠ x.request.path :=
    fun h => hclear (h ▸ hblocked)
  by_cases hstrip : cfg.rewrite.stripPathPrefix = ""
  · simp [rewriteRequest, hstrip] at hpath
  · have hstripped : (rewriteRequest cfg.rewrite x.request).path =
        stripRequestPath x.request.path cfg.rewrite.stripPathPrefix := if_pos hstrip
    refine ⟨hstrip, ?_, hstripped, hclear⟩
    rw [hstripped] at hpath
    by_contra hafter
    rw [Option.not_isSome_iff_eq_none] at hafter
    simp [stripRequestPath, hafter] at hpath

/-- `/admin` is blocked, `/api` is stripped, and bodies are bounded. -/
def stripping : ChainConfig where
  acl := { blockedPaths := ["/admin"] }
  rewrite := { stripPathPrefix := "/api" }
  maxRequestBodyBytes := 10
  rateLimiter := some { allowlist := ["192.0.2.0/24"] }

def behindPrefix : Incoming where
  arrival := {
    request := { remoteAddr := "192.0.2.7:4711", header := Header.ofList [], path := "/api/admin" }
    now := 0 }
  contentLength := 10

/-- The request for `/api/admin` is passed on as one for `/admin`. -/
theorem passed_blocked_path_behind_prefix :
    (let s : ChainState .exact Unit := ⟨newRateLimiterWithOptions .exact ⟨.gcra, 10, 20, 0, 0⟩, ()⟩
    ∃ r, (setupHTTPServer ipv4 [] noVerifiers stripping behindPrefix s).1 = .passed r ∧
      r.path = "/admin" ∧
      Blocked stripping.acl r.path ∧ r.path = stripRequestPath "/api/admin" "/api") := by
  intro s
  have hpassed : (setupHTTPServer ipv4 [] noVerifiers stripping behindPrefix s).1 =
      .passed (rewriteRequest stripping.rewrite behindPrefix.request) := rfl
  have hpath : (rewriteRequest stripping.rewrite behindPrefix.request).path = "/admin" := by
    decide +kernel
  have hblocked : Blocked stripping.acl
      (rewriteRequest stripping.rewrite behindPrefix.request).path := by
    rw [hpath]
    exact ⟨"/admin", List.mem_singleton.mpr rfl, by decide +kernel, by decide +kernel⟩
  exact ⟨_, hpassed, hpath, hblocked,
    (passed_blocked_path ipv4 [] noVerifiers stripping s behindPrefix _ hpassed hblocked).2.2.1⟩

end ReverseProxyLb.Server
