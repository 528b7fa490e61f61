import ReverseProxyLb.Lib.Eviction
import ReverseProxyLb.Limiter.MemStore
import ReverseProxyLb.Limiter.RedisStore
import ReverseProxyLb.Limiter.TokenBucket

/-! A request meets up to three limiters: that of the shared store, the one for all keys,
and the one of its key. One that refuses ends the walk; those before it have admitted the
request. -/
namespace ReverseProxyLb.Limiter
open Lib

variable {P : RatePackage}

/-- Every name but `gcra` stands for the token bucket. -/
inductive Algorithm where
  | tokenBucket
  | gcra
  deriving DecidableEq, Repr

inductive AlgoLimiter (P : RatePackage) where
  | tokenBucket (l : P.Bucket)
  | gcra (g : GcraLimiter)

def AlgoLimiter.reserve : AlgoLimiter P → ℤ → (Bool × ℤ) × AlgoLimiter P
  | .tokenBucket l, now =>
    ((tokenBucketReserve P l now).1, .tokenBucket (tokenBucketReserve P l now).2)
  | .gcra g, now => ((g.reserve now).1, .gcra (g.reserve now).2)

def newAlgoLimiter (P : RatePackage) (algorithm : Algorithm) (rps : ℚ) (burst : ℤ) : AlgoLimiter P :=
  match algorithm with
  | .gcra => .gcra (GcraLimiter.newGCRA rps burst)
  | .tokenBucket => .tokenBucket (P.newLimiter rps burst)

structure KeyLimiter (P : RatePackage) where
  algo : AlgoLimiter P
  lastSeen : ℤ

abbrev KeyLimiters (P : RatePackage) := AList fun _ : String => KeyLimiter P

structure RuleLimiter (P : RatePackage) where
  rps : ℚ
  burst : ℤ
  limiters : KeyLimiters P := ∅

def RuleLimiter.quota (rl : RuleLimiter P) : ℚ × ℤ := (rl.rps, rl.burst)

/-- The shared store, if it is one of those that come with the limiter. -/
inductive Store where
  | mem (m : MemStore)
  | redis (r : RedisStore)

def Store.allow (link : Link) (key : String) (rps : ℚ) (burst now : ℤ) : Store → (Bool × ℤ) × Store
  | .mem m => ((m.allow key rps burst now).1, .mem (m.allow key rps burst now).2)
  | .redis r => ((r.allow link key rps burst now).1, .redis (r.allow link key rps burst now).2)

def defaultIdleTTL : ℤ := 10 * 60 * Time.second
def defaultMaxEntries : ℤ := 100000

structure Options where
  algorithm : Algorithm := .tokenBucket
  perKeyRPS : ℚ
  perKeyBurst : ℤ
  globalRPS : ℚ := 0
  globalBurst : ℤ := 0

structure RateLimiter (P : RatePackage) where
  algorithm : Algorithm
  requestsPerSecond : ℚ
  burst : ℤ
  globalRPS : ℚ
  globalBurst : ℤ
  limiters : KeyLimiters P
  globalLimiter : AlgoLimiter P
  rules : String → Option (RuleLimiter P)
  idleTTL : ℤ
  maxEntries : ℤ
  store : Option Store
  storeRPS : ℚ
  storeBurst : ℤ
  storeKey : String

def newRateLimiterWithOptions (P : RatePackage) (opts : Options) : RateLimiter P :=
  let globalRPS := if opts.globalRPS ≤ 0 then opts.perKeyRPS else opts.globalRPS
  let globalBurst := if opts.globalBurst ≤ 0 then opts.perKeyBurst else opts.globalBurst
  { algorithm := opts.algorithm
    requestsPerSecond := opts.perKeyRPS
    burst := opts.perKeyBurst
    globalRPS := globalRPS
    globalBurst := globalBurst
    limiters := ∅
    globalLimiter := newAlgoLimiter P opts.algorithm globalRPS globalBurst
    rules := fun _ => none
    idleTTL := defaultIdleTTL
    maxEntries := defaultMaxEntries
    store := none
    storeRPS := 0
    storeBurst := 0
    storeKey := "" }

namespace KeyLimiters

/-- Drops what was not seen for longer than `ttl`. -/
def evictIdle (m : KeyLimiters P) (now ttl : ℤ) : KeyLimiters P :=
  keep (fun e => !decide (ttl < Time.sub now e.lastSeen)) m

def reserve (m : KeyLimiters P) (key : String) (fresh : AlgoLimiter P) (now : ℤ) :
    (Bool × ℤ) × KeyLimiters P :=
  let algo := (m.lookup key).elim fresh KeyLimiter.algo
  ((algo.reserve now).1, m.insert key ⟨(algo.reserve now).2, now⟩)

end KeyLimiters

inductive DenyScope where
  | none
  | global
  | perKey
  deriving DecidableEq, Repr

structure Decision where
  allowed : Bool
  retryAfter : ℤ
  scope : DenyScope
  deriving DecidableEq, Repr

/-- A request: its key and its rule, the reading of the clock, and what becomes of the call to
the shared store. -/
structure Call where
  key : String
  rule : String := ""
  now : ℤ
  link : Link := .up

inductive Turn where
  | request (c : Call)
  | tick (now : ℤ)

def Turn.time : Turn → ℤ
  | .request c => c.now
  | .tick now => now

namespace RateLimiter

def setStore (r : RateLimiter P) (store : Option Store) (rps : ℚ) (burst : ℤ) (key : String) :
    RateLimiter P :=
  { r with
    store := store, storeRPS := rps, storeBurst := burst
    storeKey := if key = "" then "__global__" else key }

def addRule (r : RateLimiter P) (name : String) (rps : ℚ) (burst : ℤ) : RateLimiter P :=
  { r with rules := Function.update r.rules name (some { rps := rps, burst := burst }) }

def ensureCapacityLocked (r : RateLimiter P) (now : ℤ) : KeyLimiters P :=
  if r.maxEntries ≤ 0 ∨ size r.limiters < r.maxEntries then r.limiters else
    let limiters := r.limiters.evictIdle now r.idleTTL
    if size limiters < r.maxEntries then limiters else
      match least KeyLimiter.lastSeen limiters with
      | some oldestKey => limiters.erase oldestKey
      | none => limiters

def ruleOf (r : RateLimiter P) (rule : String) : Option (RuleLimiter P) :=
  if rule ≠ "" then r.rules rule else none

def verdict (reply : Bool × ℤ) : Decision :=
  if reply.1 then ⟨true, 0, .none⟩ else ⟨false, reply.2, .perKey⟩

/-- The last part of `allow`: the limiter of the key. -/
def allowPerKey (r : RateLimiter P) (c : Call) : Decision × RateLimiter P :=
  match r.ruleOf c.rule with
  | some rl =>
    let (reply, limiters) :=
      rl.limiters.reserve c.key (newAlgoLimiter P r.algorithm rl.rps rl.burst) c.now
    (verdict reply,
      { r with rules := Function.update r.rules c.rule (some { rl with limiters := limiters }) })
  | none =>
    -- Only this map is kept within the capacity.
    let limiters := if c.key ∈ r.limiters then r.limiters else r.ensureCapacityLocked c.now
    let (reply, limiters) :=
      limiters.reserve c.key (newAlgoLimiter P r.algorithm r.requestsPerSecond r.burst) c.now
    (verdict reply, { r with limiters := limiters })

/-- The middle part of `allow`: the limiter for all keys. -/
def allowGlobal (r : RateLimiter P) (c : Call) : Decision × RateLimiter P :=
  let (reply, limiter) := r.globalLimiter.reserve c.now
  let r := { r with globalLimiter := limiter }
  if reply.1 then r.allowPerKey c else (⟨false, reply.2, .global⟩, r)

def allow (r : RateLimiter P) (c : Call) : Decision × RateLimiter P :=
  match r.store with
  | some store =>
    let (reply, store) := store.allow c.link r.storeKey r.storeRPS r.storeBurst c.now
    let r := { r with store := some store }
    if reply.1 then r.allowGlobal c else (⟨false, reply.2, .global⟩, r)
  | none => r.allowGlobal c

/-- One tick of `cleanup`. -/
def cleanup (r : RateLimiter P) (now : ℤ) : RateLimiter P :=
  { r with
    limiters := r.limiters.evictIdle now r.idleTTL
    rules := fun name => (r.rules name).map fun rl =>
      { rl with limiters := rl.limiters.evictIdle now r.idleTTL } }

def turn (r : RateLimiter P) : Turn → Option Decision × RateLimiter P
  | .request c => (some (r.allow c).1, (r.allow c).2)
  | .tick now => (none, r.cleanup now)

/-- `rebuildEntryLocked`: a new limiter that was last seen when the old one was. -/
def rebuildEntry (r : RateLimiter P) (rps : ℚ) (burst : ℤ) (entry : KeyLimiter P) : KeyLimiter P :=
  { entry with algo := newAlgoLimiter P r.algorithm rps burst }

def updateRates (r : RateLimiter P) (perKeyRPS : ℚ) (perKeyBurst : ℤ) (globalRPS : ℚ)
    (globalBurst : ℤ) :
    RateLimiter P :=
  { r with
    requestsPerSecond := perKeyRPS
    burst := perKeyBurst
    globalRPS := globalRPS
    globalBurst := globalBurst
    globalLimiter := newAlgoLimiter P r.algorithm globalRPS globalBurst
    limiters := remap (r.rebuildEntry perKeyRPS perKeyBurst) r.limiters
    rules := fun name => (r.rules name).map fun rl =>
      { rl with limiters := remap (r.rebuildEntry rl.rps rl.burst) rl.limiters } }

def target (r : RateLimiter P) (rule : String) : Option String :=
  if rule ≠ "" ∧ (r.rules rule).isSome then some rule else none

def poolAt (r : RateLimiter P) : Option String → KeyLimiters P
  | none => r.limiters
  | some name => (r.rules name).elim ∅ RuleLimiter.limiters

def quotaAt (r : RateLimiter P) : Option String → ℚ × ℤ
  | none => (r.requestsPerSecond, r.burst)
  | some name => ((r.rules name).map RuleLimiter.quota).getD (0, 0)

def setPoolAt (r : RateLimiter P) : Option String → KeyLimiters P → RateLimiter P
  | none, m => { r with limiters := m }
  | some name, m =>
    { r with
      rules := Function.update r.rules name ((r.rules name).map fun rl => { rl with limiters := m }) }

def roomFor (r : RateLimiter P) (c : Call) : KeyLimiters P :=
  match r.target c.rule with
  | none => if c.key ∈ r.limiters then r.limiters else r.ensureCapacityLocked c.now
  | some name => r.poolAt (some name)

def reserveKey (r : RateLimiter P) (c : Call) : (Bool × ℤ) × KeyLimiters P :=
  let quota := r.quotaAt (r.target c.rule)
  (r.roomFor c).reserve c.key (newAlgoLimiter P r.algorithm quota.1 quota.2) c.now

section Pools
variable {r : RateLimiter P} {c : Call}

theorem target_of_ruleOf {rule : String} {rl : RuleLimiter P} (h : r.ruleOf rule = some rl) :
    r.target rule = some rule ∧ r.rules rule = some rl := by
  unfold ruleOf at h
  split at h
  · rename_i hne
    exact ⟨if_pos ⟨hne, by rw [h]; rfl⟩, h⟩
  · cases h

theorem target_of_ruleOf_none {rule : String} (h : r.ruleOf rule = none) : r.target rule = none := by
  apply if_neg
  rintro ⟨hne, hsome⟩
  rw [ruleOf, if_pos hne] at h
  rw [h] at hsome
  cases hsome

theorem allowPerKey_eq (r : RateLimiter P) (c : Call) :
    r.allowPerKey c =
      (verdict (r.reserveKey c).1, r.setPoolAt (r.target c.rule) (r.reserveKey c).2) := by
  unfold allowPerKey reserveKey roomFor
  cases h : r.ruleOf c.rule with
  | none => rw [target_of_ruleOf_none h]; rfl
  | some rl =>
    obtain ⟨htarget, hrule⟩ := target_of_ruleOf h
    simp only [htarget, setPoolAt, poolAt, quotaAt, hrule, Option.elim_some, Option.map_some,
      Option.getD_some,
      RuleLimiter.quota]

def Known (r : RateLimiter P) (pool : Option String) : Prop :=
  ∀ name ∈ pool, name ≠ "" ∧ (r.rules name).isSome = true

theorem known_target (rule : String) : r.Known (r.target rule) := by
  intro name hname
  unfold target at hname
  split at hname
  · rename_i hknown
    obtain rfl : rule = name := Option.some_inj.mp hname
    exact hknown
  · cases hname

theorem poolAt_setPoolAt {pool : Option String} (h : r.Known pool) (m : KeyLimiters P)
    (pool' : Option String) :
    (r.setPoolAt pool m).poolAt pool' = if pool' = pool then m else r.poolAt pool' := by
  cases pool with
  | none => cases pool' <;> simp [setPoolAt, poolAt]
  | some name =>
    obtain ⟨rl, hrl⟩ := Option.isSome_iff_exists.mp (h name rfl).2
    cases pool' with
    | none => simp [setPoolAt, poolAt]
    | some name' =>
      by_cases hname : name' = name
      · subst hname
        simp [setPoolAt, poolAt, hrl]
      · simp [setPoolAt, poolAt, hname]

theorem rules_setPoolAt (pool : Option String) (m : KeyLimiters P) (name : String) :
    ((r.setPoolAt pool m).rules name).map RuleLimiter.quota =
      (r.rules name).map RuleLimiter.quota := by
  cases pool with
  | none => rfl
  | some name' =>
    by_cases hname : name = name'
    · subst hname
      simp only [setPoolAt, Function.update_self, Option.map_map]
      rfl
    · simp [setPoolAt, hname]

theorem poolAt_cleanup (now : ℤ) (pool : Option String) :
    (r.cleanup now).poolAt pool = (r.poolAt pool).evictIdle now r.idleTTL := by
  cases pool with
  | none => rfl
  | some name =>
    cases h : r.rules name with
    | none =>
      simp only [cleanup, poolAt, h, Option.map_none, Option.elim_none]
      rfl
    | some rl => simp only [cleanup, poolAt, h, Option.map_some, Option.elim_some]

def passGates (r : RateLimiter P) (c : Call) : Option ℤ × Option Store × AlgoLimiter P :=
  let global := r.globalLimiter.reserve c.now
  let wait := if global.1.1 then none else some global.1.2
  match r.store with
  | none => (wait, none, global.2)
  | some store =>
    let reply := store.allow c.link r.storeKey r.storeRPS r.storeBurst c.now
    if reply.1.1 then (wait, some reply.2, global.2)
      else (some reply.1.2, some reply.2, r.globalLimiter)

def afterGates (r : RateLimiter P) (c : Call) : RateLimiter P :=
  { r with store := (r.passGates c).2.1, globalLimiter := (r.passGates c).2.2 }

theorem allow_eq (r : RateLimiter P) (c : Call) :
    r.allow c = (r.passGates c).1.elim ((r.afterGates c).allowPerKey c) fun wait =>
      (⟨false, wait, .global⟩, r.afterGates c) := by
  have hglobal : ∀ s : RateLimiter P, s.allowGlobal c =
      if (s.globalLimiter.reserve c.now).1.1 then
        RateLimiter.allowPerKey { s with globalLimiter := (s.globalLimiter.reserve c.now).2 } c
      else (⟨false, (s.globalLimiter.reserve c.now).1.2, .global⟩,
        { s with globalLimiter := (s.globalLimiter.reserve c.now).2 }) := fun _ => rfl
  unfold allow afterGates passGates
  cases hstore : r.store with
  | none =>
    dsimp only
    rw [hglobal]
    cases (r.globalLimiter.reserve c.now).1.1 <;> simp [← hstore]
  | some store =>
    dsimp only
    rw [hglobal]
    cases (store.allow c.link r.storeKey r.storeRPS r.storeBurst c.now).1.1
    · simp
    · cases (r.globalLimiter.reserve c.now).1.1 <;> simp

theorem allow_keeps {β : Type*} {f : RateLimiter P → β} (hf : ∀ r pool m, f (r.setPoolAt pool m) = f r)
    (r : RateLimiter P) (c : Call) : f (r.allow c).2 = f (r.afterGates c) := by
  rw [allow_eq]
  cases (r.passGates c).1 with
  | some wait => rfl
  | none =>
    rw [Option.elim_none, allowPerKey_eq]
    exact hf _ _ _

end Pools
end RateLimiter
end ReverseProxyLb.Limiter
