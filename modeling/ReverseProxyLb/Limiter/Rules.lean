import Mathlib
import ReverseProxyLb.Limiter.Capacity
import ReverseProxyLb.Limiter.RetryAfter
import ReverseProxyLb.Netutil.ClientIP

/-! The rules are registered under names made of their positions, and a request is looked up under
the name of the first that covers it. Nothing later unregisters a rule or changes its rate. -/
namespace ReverseProxyLb.Limiter
open Lib RateLimiter Text Netutil

variable {P : RatePackage}

structure RateLimitRule where
  pathPrefix : String := ""
  method : String := ""
  rps : ℤ
  burst : ℤ

/-- `config.RateLimiterConfig`, as far as the middleware reads it. -/
structure RateLimiterConfig where
  key : String := ""
  retryAfterSeconds : ℤ := 0
  message : String := ""
  allowlist : List String := []
  rules : List RateLimitRule := []

/-- `RuleName`. -/
def ruleName (i : ℕ) : String := "rule:" ++ toString i

def registerRules (rl : RateLimiter P) (rules : List RateLimitRule) : RateLimiter P :=
  rules.zipIdx.foldl (fun rl rule => rl.addRule (ruleName rule.2) rule.1.rps rule.1.burst) rl

/-- `setupLimiter`, with the shared store and its key if there is one. -/
def setupLimiter (P : RatePackage) (opts : Options) (rules : List RateLimitRule)
    (shared : Option (Store × String)) :
    RateLimiter P :=
  let rl := registerRules (newRateLimiterWithOptions P opts) rules
  match shared with
  | some (store, key) => rl.setStore (some store) opts.perKeyRPS opts.perKeyBurst key
  | none => rl

/-- The conditions of `matchRule`; an empty one holds. -/
def RateLimitRule.covers (rule : RateLimitRule) (r : Request) : Bool :=
  (rule.pathPrefix == "" || (after? rule.pathPrefix r.path).isSome) &&
    (rule.method == "" || equalFold rule.method r.method)

def matchRule (rules : List RateLimitRule) (r : Request) : String :=
  match rules.findIdx? (·.covers r) with
  | some i => ruleName i
  | none => ""

def limitKey (cfg : RateLimiterConfig) (ip : String) (r : Request) : String :=
  let headerName := (after? "header:" cfg.key).getD ""
  if headerName ≠ "" ∧ r.header.get headerName ≠ "" then r.header.get headerName else ip

structure Refusal where
  retryAfter : String
  body : String
  deriving DecidableEq

def refusal (cfg : RateLimiterConfig) (d : Decision) : Option Refusal :=
  if d.allowed then none
  else some {
    retryAfter :=
      retryAfterHeader d.retryAfter (if cfg.retryAfterSeconds ≤ 0 then 1 else cfg.retryAfterSeconds)
    body := if cfg.message = "" then "Rate limit exceeded" else cfg.message }

/-- A request as it comes to the middleware, with the reading of the clock. -/
structure Arrival where
  request : Request
  now : ℤ
  link : Link := .up

section Middleware
variable (net : Parsers) (cfg : RateLimiterConfig) (trusted : List IPNet)

def exempt (r : Request) : Bool :=
  let allowNets := parseCIDRs net cfg.allowlist
  decide (0 < allowNets.length) && ipInNets (net.parseIP (clientIP net r trusted)) allowNets

def callOf (a : Arrival) : Call where
  key := limitKey cfg (clientIP net a.request trusted) a.request
  rule := matchRule cfg.rules a.request
  now := a.now
  link := a.link

/-- `RateLimit`: the refusal, unless the request is passed on. -/
def rateLimit (rl : RateLimiter P) (a : Arrival) : Option Refusal × RateLimiter P :=
  if exempt net cfg trusted a.request then (none, rl)
  else (refusal cfg (rl.allow (callOf net cfg trusted a)).1, (rl.allow (callOf net cfg trusted a)).2)

/-- A request comes, `cleanup` ticks, or the configuration is reloaded. -/
inductive Occurrence where
  | request (a : Arrival)
  | tick (now : ℤ)
  | reload (perKeyRPS : ℚ) (perKeyBurst : ℤ) (globalRPS : ℚ) (globalBurst : ℤ)

def occur (rl : RateLimiter P) : Occurrence → RateLimiter P
  | .request a => (rateLimit net cfg trusted rl a).2
  | .tick now => rl.cleanup now
  | .reload perKeyRPS perKeyBurst globalRPS globalBurst =>
    rl.updateRates perKeyRPS perKeyBurst globalRPS globalBurst

end Middleware

theorem ruleName_injective : Function.Injective ruleName := by
  intro i j h
  have hdigits : (toString i).toList = (toString j).toList := by
    simpa [ruleName] using congrArg String.toList h
  exact Nat.repr_inj.mp (String.toList_inj.mp hdigits)

theorem ruleName_ne_empty (i : ℕ) : ruleName i ≠ "" := by
  intro h
  simpa [ruleName] using congrArg String.toList h

def Registered (rules : List RateLimitRule) (rl : RateLimiter P) : Prop :=
  ∀ (i : ℕ) (rule : RateLimitRule), rules[i]? = some rule →
    (rl.rules (ruleName i)).map RuleLimiter.quota = some ((rule.rps : ℚ), rule.burst)

theorem registerRules_concat (rl : RateLimiter P) (rules : List RateLimitRule) (rule : RateLimitRule) :
    registerRules rl (rules ++ [rule]) =
      (registerRules rl rules).addRule (ruleName rules.length) rule.rps rule.burst := by
  simp [registerRules, List.zipIdx_append]

theorem registered_registerRules (rl : RateLimiter P) (rules : List RateLimitRule) :
    Registered rules (registerRules rl rules) := by
  induction rules using List.reverseRecOn with
  | nil => simp [Registered]
  | append_singleton rules last ih =>
    intro i rule hi
    rw [registerRules_concat]
    -- A later rule has another name.
    by_cases hlast : i = rules.length
    · subst hlast
      obtain rfl : last = rule := by simpa using hi
      simp [addRule, RuleLimiter.quota]
    · have hlt := (List.getElem?_eq_some_iff.mp hi).1
      rw [List.length_append, List.length_singleton] at hlt
      rw [List.getElem?_append_left (by omega)] at hi
      simpa [addRule, ruleName_injective.ne hlast] using ih i rule hi

namespace Registered
variable {rules : List RateLimitRule} {rl rl' : RateLimiter P}

theorem congr (h : Registered rules rl)
    (hsame : ∀ name, (rl'.rules name).map RuleLimiter.quota = (rl.rules name).map RuleLimiter.quota) :
    Registered rules rl' := fun i rule hi => (hsame _).trans (h i rule hi)

theorem allow (h : Registered rules rl) (c : Call) : Registered rules (rl.allow c).2 := by
  apply h.congr
  intro name
  exact allow_keeps (f := fun rl => (rl.rules name).map RuleLimiter.quota)
    (fun _ pool m => rules_setPoolAt pool m name) rl c

theorem occur (h : Registered rules rl) (net : Parsers) (cfg : RateLimiterConfig)
    (trusted : List IPNet) (o : Occurrence) : Registered rules (occur net cfg trusted rl o) := by
  cases o with
  | request a =>
    simp only [Limiter.occur, rateLimit]
    split
    · exact h
    · exact h.allow _
  | tick now =>
    apply h.congr
    intro name
    simp only [Limiter.occur, cleanup, Option.map_map]
    rfl
  | reload =>
    apply h.congr
    intro name
    simp only [Limiter.occur, updateRates, Option.map_map]
    rfl

theorem run (h : Registered rules rl) (net : Parsers) (cfg : RateLimiterConfig) (trusted : List IPNet)
    (os : List Occurrence) : Registered rules (os.foldl (Limiter.occur net cfg trusted) rl) := by
  induction os generalizing rl with
  | nil => exact h
  | cons o os ih => exact ih (h.occur net cfg trusted o)

theorem target_eq
    (h : Registered rules rl) {i : ℕ} {rule : RateLimitRule} (hi : rules[i]? = some rule) :
    rl.target (ruleName i) = some (ruleName i) ∧
      rl.quotaAt (some (ruleName i)) = ((rule.rps : ℚ), rule.burst) := by
  have hquota := h i rule hi
  have hsome : (rl.rules (ruleName i)).isSome := by
    rw [← Option.isSome_map (f := RuleLimiter.quota), hquota]
    rfl
  constructor
  · simp [target, ruleName_ne_empty, hsome]
  · simp [quotaAt, hquota]

end Registered

theorem registered_setupLimiter (P : RatePackage) (opts : Options) (rules : List RateLimitRule)
    (shared : Option (Store × String)) : Registered rules (setupLimiter P opts rules shared) := by
  cases shared with
  | none => exact registered_registerRules _ rules
  | some store => exact registered_registerRules _ rules

def HasQuota (algorithm : Algorithm) (quota : ℚ × ℤ) (l : AlgoLimiter P) : Prop :=
  ∃ nows : List ℤ, l =
    nows.foldl (fun l now => (l.reserve now).2) (newAlgoLimiter P algorithm quota.1 quota.2)

theorem hasQuota_new (algorithm : Algorithm) (quota : ℚ × ℤ) :
    HasQuota algorithm quota (newAlgoLimiter P algorithm quota.1 quota.2) := ⟨[], rfl⟩

theorem HasQuota.reserve {algorithm : Algorithm} {quota : ℚ × ℤ} {l : AlgoLimiter P}
    (h : HasQuota algorithm quota l) (now : ℤ) : HasQuota algorithm quota (l.reserve now).2 := by
  obtain ⟨nows, rfl⟩ := h
  exact ⟨nows ++ [now], by rw [List.foldl_append, List.foldl_cons, List.foldl_nil]⟩

namespace RateLimiter

def limiterOf (rl : RateLimiter P) (pool : Option String) (key : String) : AlgoLimiter P :=
  ((rl.poolAt pool).lookup key).elim
    (newAlgoLimiter P rl.algorithm (rl.quotaAt pool).1 (rl.quotaAt pool).2) KeyLimiter.algo

/-- Every entry is a limiter of the rate and burst of its map. -/
def InQuota (rl : RateLimiter P) : Prop :=
  ∀ pool key e, (rl.poolAt pool).lookup key = some e → HasQuota rl.algorithm (rl.quotaAt pool) e.algo

variable {rl rl' : RateLimiter P}

theorem InQuota.limiterOf (h : rl.InQuota) (pool : Option String) (key : String) :
    HasQuota rl.algorithm (rl.quotaAt pool) (rl.limiterOf pool key) := by
  unfold RateLimiter.limiterOf
  cases he : (rl.poolAt pool).lookup key with
  | none => exact hasQuota_new ..
  | some e => exact h pool key e he

theorem lookup_ensureCapacityLocked {now : ℤ} {key : String} {e : KeyLimiter P}
    (h : (rl.ensureCapacityLocked now).lookup key = some e) : rl.limiters.lookup key = some e := by
  unfold ensureCapacityLocked at h
  dsimp only at h
  split_ifs at h
  · exact h
  · exact evictIdle_kept h
  · split at h
    · rename_i oldest _
      by_cases hkey : key = oldest
      · rw [hkey, AList.lookup_erase] at h
        cases h
      · rw [AList.lookup_erase_ne hkey] at h
        exact evictIdle_kept h
    · exact evictIdle_kept h

theorem lookup_roomFor {c : Call} {key : String} {e : KeyLimiter P}
    (h : (rl.roomFor c).lookup key = some e) :
    (rl.poolAt (rl.target c.rule)).lookup key = some e := by
  unfold roomFor at h
  split at h
  · rename_i htarget
    rw [htarget]
    split_ifs at h
    · exact h
    · exact lookup_ensureCapacityLocked h
  · rename_i name htarget
    rw [htarget]
    exact h

theorem quotaAt_setPoolAt (pool : Option String) (m : KeyLimiters P) (pool' : Option String) :
    (rl.setPoolAt pool m).quotaAt pool' = rl.quotaAt pool' := by
  cases pool' with
  | none => cases pool <;> rfl
  | some name => simp only [quotaAt, rules_setPoolAt]

theorem InQuota.reserveKey (h : rl.InQuota) {c : Call} {key : String} {e : KeyLimiter P}
    (he : (rl.reserveKey c).2.lookup key = some e) :
    HasQuota rl.algorithm (rl.quotaAt (rl.target c.rule)) e.algo := by
  unfold RateLimiter.reserveKey KeyLimiters.reserve at he
  by_cases hkey : key = c.key
  · rw [hkey, AList.lookup_insert] at he
    cases he
    apply HasQuota.reserve
    cases hold : (rl.roomFor c).lookup c.key with
    | none => exact hasQuota_new ..
    | some e => exact h _ _ e (lookup_roomFor hold)
  · rw [AList.lookup_insert_ne hkey] at he
    exact h _ _ e (lookup_roomFor he)

theorem InQuota.allow (h : rl.InQuota) (c : Call) : (rl.allow c).2.InQuota := by
  have hgates : (rl.afterGates c).InQuota := h
  rw [allow_eq]
  cases (rl.passGates c).1 with
  | some wait => exact hgates
  | none =>
    rw [Option.elim_none, allowPerKey_eq]
    intro pool key e he
    rw [poolAt_setPoolAt (known_target c.rule)] at he
    rw [quotaAt_setPoolAt]
    have halgorithm : ((rl.afterGates c).setPoolAt ((rl.afterGates c).target c.rule)
        ((rl.afterGates c).reserveKey c).2).algorithm = (rl.afterGates c).algorithm := by
      cases (rl.afterGates c).target c.rule <;> rfl
    rw [halgorithm]
    split_ifs at he with hpool
    · rw [hpool]
      exact hgates.reserveKey he
    · exact hgates pool key e he

theorem InQuota.cleanup (h : rl.InQuota) (now : ℤ) : (rl.cleanup now).InQuota := by
  intro pool key e he
  rw [poolAt_cleanup, lookup_evictIdle] at he
  have hquota : (rl.cleanup now).quotaAt pool = rl.quotaAt pool := by
    cases pool with
    | none => rfl
    | some name =>
      simp only [quotaAt, RateLimiter.cleanup, Option.map_map]
      rfl
  rw [hquota]
  exact h pool key e (Option.filter_eq_some_iff.mp he).1

theorem inQuota_updateRates (rl : RateLimiter P) (perKeyRPS : ℚ) (perKeyBurst : ℤ) (globalRPS : ℚ)
    (globalBurst : ℤ) : (rl.updateRates perKeyRPS perKeyBurst globalRPS globalBurst).InQuota := by
  intro pool key e he
  cases pool with
  | none =>
    simp only [poolAt, updateRates, lookup_remap, Option.map_eq_some_iff] at he
    obtain ⟨e, -, rfl⟩ := he
    exact hasQuota_new rl.algorithm (perKeyRPS, perKeyBurst)
  | some name =>
    cases hrule : rl.rules name with
    | none =>
      simp only [poolAt, updateRates, hrule, Option.map_none, Option.elim_none] at he
      cases he
    | some rule =>
      simp only [poolAt, updateRates, hrule, Option.map_some, Option.elim_some, lookup_remap,
        Option.map_eq_some_iff] at he
      obtain ⟨e, -, rfl⟩ := he
      simp only [quotaAt, updateRates, hrule, Option.map_some, Option.getD_some, RuleLimiter.quota]
      exact hasQuota_new rl.algorithm (rule.rps, rule.burst)

theorem InQuota.occur (h : rl.InQuota) (net : Parsers) (cfg : RateLimiterConfig) (trusted : List IPNet)
    (o : Occurrence) : (occur net cfg trusted rl o).InQuota := by
  cases o with
  | request a =>
    simp only [Limiter.occur, rateLimit]
    split
    · exact h
    · exact h.allow _
  | tick now => exact h.cleanup now
  | reload perKeyRPS perKeyBurst globalRPS globalBurst => exact inQuota_updateRates rl _ _ _ _

theorem algorithm_occur (net : Parsers) (cfg : RateLimiterConfig) (trusted : List IPNet)
    (rl : RateLimiter P) (o : Occurrence) : (occur net cfg trusted rl o).algorithm = rl.algorithm := by
  cases o with
  | request a =>
    simp only [Limiter.occur, rateLimit]
    split
    · rfl
    · exact allow_keeps (f := RateLimiter.algorithm) (fun _ pool _ => by cases pool <;> rfl) ..
  | tick => rfl
  | reload => rfl

theorem InQuota.run (h : rl.InQuota) (net : Parsers) (cfg : RateLimiterConfig) (trusted : List IPNet)
    (os : List Occurrence) : (os.foldl (Limiter.occur net cfg trusted) rl).InQuota ∧
      (os.foldl (Limiter.occur net cfg trusted) rl).algorithm = rl.algorithm := by
  induction os generalizing rl with
  | nil => exact ⟨h, rfl⟩
  | cons o os ih =>
    obtain ⟨hquota, halgorithm⟩ := ih (h.occur net cfg trusted o)
    exact ⟨hquota, halgorithm.trans (algorithm_occur ..)⟩

theorem inQuota_setupLimiter (P : RatePackage) (opts : Options) (rules : List RateLimitRule)
    (shared : Option (Store × String)) : (setupLimiter P opts rules shared).InQuota ∧
      (setupLimiter P opts rules shared).algorithm = opts.algorithm := by
  have hregister : ∀ pool, (registerRules (newRateLimiterWithOptions P opts) rules).poolAt pool = ∅ ∧
      (registerRules (newRateLimiterWithOptions P opts) rules).algorithm = opts.algorithm := by
    intro pool
    induction rules using List.reverseRecOn with
    | nil => cases pool <;> exact ⟨rfl, rfl⟩
    | append_singleton rules last ih =>
      rw [registerRules_concat]
      refine ⟨?_, ih.2⟩
      cases pool with
      | none => exact ih.1
      | some name =>
        by_cases hname : name = ruleName rules.length
        · simp [poolAt, addRule, hname]
        · simpa [poolAt, addRule, hname] using ih.1
  have hsetup : ∀ pool, (setupLimiter P opts rules shared).poolAt pool = ∅ := by
    intro pool
    cases shared with
    | none => exact (hregister pool).1
    | some store => cases pool with
      | none => exact (hregister none).1
      | some name => exact (hregister (some name)).1
  refine ⟨fun pool key e he => ?_, ?_⟩
  · rw [hsetup] at he
    cases he
  · cases shared <;> exact (hregister none).2

end RateLimiter

/-- In every run each entry has its map's rate and burst. A request that the first covering rule is
the `i`-th for is passed on or refused by the limiter of its key in the map of that rule, with the
rule's own rate and burst, once the limiters for all keys let it pass. No other map is touched. -/
theorem rateLimit_first_match (net : Parsers) (cfg : RateLimiterConfig) (trusted : List IPNet)
    (opts : Options) (shared : Option (Store × String)) (os : List Occurrence) (a : Arrival) (i : ℕ)
    (rule : RateLimitRule) (hexempt : exempt net cfg trusted a.request = false)
    (hfirst : cfg.rules.findIdx? (·.covers a.request) = some i) (hrule : cfg.rules[i]? = some rule) :
    let rl := os.foldl (occur net cfg trusted) (setupLimiter P opts cfg.rules shared)
    let c := callOf net cfg trusted a
    let limiter := rl.limiterOf (some (ruleName i)) c.key
    let out := rateLimit net cfg trusted rl a
    rl.InQuota ∧ HasQuota opts.algorithm ((rule.rps : ℚ), rule.burst) limiter ∧
      ((rl.passGates c).1 = none → out.1 = refusal cfg (verdict (limiter.reserve a.now).1) ∧
        out.2.poolAt (some (ruleName i)) =
          (rl.poolAt (some (ruleName i))).insert c.key ⟨(limiter.reserve a.now).2, a.now⟩) ∧
      (∀ wait, (rl.passGates c).1 = some wait →
        out.1 = refusal cfg ⟨false, wait, .global⟩ ∧
          out.2.poolAt (some (ruleName i)) = rl.poolAt (some (ruleName i))) ∧
      ∀ pool, pool ≠ some (ruleName i) → out.2.poolAt pool = rl.poolAt pool := by
  intro rl c limiter out
  have hreg : Registered cfg.rules rl :=
    (registered_setupLimiter P opts cfg.rules shared).run net cfg trusted os
  obtain ⟨hstart, halgorithm⟩ := inQuota_setupLimiter P opts cfg.rules shared
  obtain ⟨hin, hsame⟩ := hstart.run net cfg trusted os
  obtain ⟨htarget, hquota⟩ := hreg.target_eq hrule
  have hname : c.rule = ruleName i := by simp [c, callOf, matchRule, hfirst]
  have hout : out = (refusal cfg (rl.allow c).1, (rl.allow c).2) := by
    simp [out, rateLimit, hexempt, c]
  have hafter : (rl.afterGates c).target c.rule = some (ruleName i) := by
    rw [hname]
    exact htarget
  have hreserve : (rl.afterGates c).reserveKey c = ((limiter.reserve a.now).1,
      (rl.poolAt (some (ruleName i))).insert c.key ⟨(limiter.reserve a.now).2, a.now⟩) := by
    simp only [reserveKey, roomFor, hafter]
    rfl
  refine ⟨hin, ?_, fun hpass => ?_, fun wait hwait => ?_, fun pool hpool => ?_⟩
  · have hlimiter := hin.limiterOf (some (ruleName i)) c.key
    rwa [hsame, halgorithm, hquota] at hlimiter
  · have hallow : rl.allow c =
        (verdict (limiter.reserve a.now).1, (rl.afterGates c).setPoolAt (some (ruleName i))
        ((rl.poolAt (some (ruleName i))).insert c.key ⟨(limiter.reserve a.now).2, a.now⟩)) := by
      rw [allow_eq, hpass, Option.elim_none, allowPerKey_eq, hreserve, hafter]
    rw [hout, hallow]
    refine ⟨rfl, ?_⟩
    have hknown : (rl.afterGates c).Known (some (ruleName i)) := hafter ▸ known_target c.rule
    exact (poolAt_setPoolAt hknown _ _).trans (if_pos rfl)
  · have hallow : rl.allow c = (⟨false, wait, .global⟩, rl.afterGates c) := by
      rw [allow_eq, hwait]
      rfl
    rw [hout, hallow]
    exact ⟨rfl, rfl⟩
  · rw [hout]
    rcases allow_poolAt rl c with hall | ⟨e, he⟩
    · exact hall pool
    · rw [he, hname, htarget]
      exact if_neg hpool

def sampleConfig : RateLimiterConfig where
  allowlist := ["10.0.0.0/8"]
  rules :=
    [{ method := "POST", rps := 1, burst := 1 }, { pathPrefix := "/api", rps := 5, burst := 10 }]

def sampleArrival : Arrival where
  request := { remoteAddr := "192.0.2.7:4711", header := Header.ofList [], path := "/api/items" }
  now := 0

/-- A `GET` is the second rule's, whatever came before. -/
theorem rateLimit_second_rule :
    exempt ipv4 sampleConfig [] sampleArrival.request = false ∧
      ∀ os : List Occurrence,
        let start := setupLimiter .exact ⟨.gcra, 10, 20, 0, 0⟩ sampleConfig.rules none
        let rl := os.foldl (occur ipv4 sampleConfig []) start
        rl.InQuota ∧ HasQuota .gcra (5, 10) (rl.limiterOf (some (ruleName 1)) "192.0.2.7") ∧
          ∀ pool, pool ≠ some (ruleName 1) →
            (rateLimit ipv4 sampleConfig [] rl sampleArrival).2.poolAt pool = rl.poolAt pool := by
  refine ⟨by decide +kernel, fun os => ?_⟩
  obtain ⟨hin, hquota, -, -, hothers⟩ := rateLimit_first_match (P := .exact) ipv4 sampleConfig []
    ⟨.gcra, 10, 20, 0, 0⟩ none os sampleArrival 1 _ (by decide +kernel) (by decide +kernel) rfl
  have hkey : (callOf ipv4 sampleConfig [] sampleArrival).key = "192.0.2.7" := by decide +kernel
  rw [hkey] at hquota
  exact ⟨hin, hquota, hothers⟩

end ReverseProxyLb.Limiter
