import ReverseProxyLb.Limiter.RateLimiter

/-! The map without a rule is kept within the capacity, by dropping what is idle or else
what was seen least recently. The maps of the rules are not. -/
namespace ReverseProxyLb.Limiter
open Lib RateLimiter

variable {P : RatePackage}

inductive Event where
  | turn (x : Turn)
  | addRule (name : String) (rps : ℚ) (burst : ℤ)
  | updateRates (perKeyRPS : ℚ) (perKeyBurst : ℤ) (globalRPS : ℚ) (globalBurst : ℤ)
  | setStore (store : Option Store) (rps : ℚ) (burst : ℤ) (key : String)

def keysUnder (name : String) (events : List Event) : List String :=
  events.filterMap fun
    | .turn (.request c) => if c.rule = name then some c.key else none
    | _ => none

namespace RateLimiter

def act (r : RateLimiter P) : Event → RateLimiter P
  | .turn x => (r.turn x).2
  | .addRule name rps burst => r.addRule name rps burst
  | .updateRates perKeyRPS perKeyBurst globalRPS globalBurst =>
    r.updateRates perKeyRPS perKeyBurst globalRPS globalBurst
  | .setStore store rps burst key => r.setStore store rps burst key

def Idle (r : RateLimiter P) (now : ℤ) (e : KeyLimiter P) : Prop := r.idleTTL < Time.sub now e.lastSeen

def Oldest (r : RateLimiter P) (e : KeyLimiter P) : Prop :=
  ∀ key e', r.limiters.lookup key = some e' → e.lastSeen ≤ e'.lastSeen

/-- What room is made for and what is dropped for it. -/
structure MakesRoom (r : RateLimiter P) (now : ℤ) (m : KeyLimiters P) : Prop where
  kept : ∀ key e, m.lookup key = some e → r.limiters.lookup key = some e
  dropped : ∀ key e, r.limiters.lookup key = some e → key ∉ m → r.Idle now e ∨ r.Oldest e

variable {r : RateLimiter P} {now : ℤ}

theorem lookup_evictIdle (m : KeyLimiters P) (ttl : ℤ) (key : String) :
    (m.evictIdle now ttl).lookup key = (m.lookup key).filter fun e =>
      !decide (ttl < Time.sub now e.lastSeen) :=
  lookup_keep _

theorem evictIdle_kept {key : String} {e : KeyLimiter P}
    (h : (r.limiters.evictIdle now r.idleTTL).lookup key = some e) :
    r.limiters.lookup key = some e := by
  rw [lookup_evictIdle] at h
  exact (Option.filter_eq_some_iff.mp h).1

theorem evictIdle_dropped {key : String} {e : KeyLimiter P} (h : r.limiters.lookup key = some e)
    (hnot : key ∉ r.limiters.evictIdle now r.idleTTL) : r.Idle now e := by
  by_contra hidle
  apply hnot
  apply lookup_eq_some_mem (b := e)
  rw [lookup_evictIdle, h]
  exact Option.filter_eq_some_iff.mpr ⟨rfl, by simpa [Idle] using hidle⟩

theorem ensureCapacityLocked_spec (hmax : 1 ≤ r.maxEntries) (hsize : size r.limiters ≤ r.maxEntries) :
    size (r.ensureCapacityLocked now) < r.maxEntries ∧
      r.MakesRoom now (r.ensureCapacityLocked now) := by
  unfold ensureCapacityLocked
  by_cases hroom : r.maxEntries ≤ 0 ∨ size r.limiters < r.maxEntries
  · rw [if_pos hroom]
    exact ⟨by omega, fun _ _ h => h, fun key e h hnot => absurd (lookup_eq_some_mem h) hnot⟩
  rw [if_neg hroom]
  by_cases hroom' : size (r.limiters.evictIdle now r.idleTTL) < r.maxEntries
  · rw [if_pos hroom']
    exact ⟨hroom', fun key e => evictIdle_kept, fun key e h hnot => .inl (evictIdle_dropped h hnot)⟩
  rw [if_neg hroom']
  -- The map is as full as before, so nothing was idle.
  have hnone : ∀ key e, r.limiters.lookup key = some e →
      (r.limiters.evictIdle now r.idleTTL).lookup key = some e := by
    intro key e h
    by_contra hdropped
    have hlt : size (r.limiters.evictIdle now r.idleTTL) < size r.limiters := by
      apply size_keep_lt h
      rw [lookup_evictIdle, h] at hdropped
      simpa [Option.filter] using hdropped
    omega
  obtain ⟨key, hkey⟩ : ∃ key, key ∈ r.limiters.evictIdle now r.idleTTL :=
    exists_mem_of_size_pos (by omega)
  obtain ⟨oldest, e, hleast, hlookup, hmin⟩ := exists_least (f := KeyLimiter.lastSeen) hkey
  rw [hleast]
  have herase := size_erase (lookup_eq_some_mem hlookup)
  have hle :=
    size_keep_le (m := r.limiters) (p := fun e => !decide (r.idleTTL < Time.sub now e.lastSeen))
  change size (r.limiters.evictIdle now r.idleTTL) ≤ _ at hle
  refine ⟨by dsimp only; omega, fun key e' h => ?_, fun key e' h hnot => ?_⟩
  · have hne : key ≠ oldest := by
      rintro rfl
      rw [AList.lookup_erase] at h
      cases h
    rw [AList.lookup_erase_ne hne] at h
    exact evictIdle_kept h
  · right
    have holdest : key = oldest := by
      by_contra hne
      exact hnot (AList.mem_erase.mpr ⟨hne, lookup_eq_some_mem (hnone key e' h)⟩)
    subst holdest
    have heq := hnone key e' h
    rw [hlookup] at heq
    cases heq
    exact fun key' e'' h' => hmin key' e'' (hnone key' e'' h')

theorem allow_poolAt (r : RateLimiter P) (c : Call) :
    (∀ pool, (r.allow c).2.poolAt pool = r.poolAt pool) ∨
      ∃ e, ∀ pool, (r.allow c).2.poolAt pool =
        if pool = r.target c.rule then (r.roomFor c).insert c.key e else r.poolAt pool := by
  rw [allow_eq]
  cases (r.passGates c).1 with
  | some wait => exact .inl fun pool => rfl
  | none =>
    right
    rw [Option.elim_none, allowPerKey_eq]
    obtain ⟨e, he⟩ : ∃ e, ((r.afterGates c).reserveKey c).2 = (r.roomFor c).insert c.key e := ⟨_, rfl⟩
    refine ⟨e, fun pool => ?_⟩
    rw [he]
    exact poolAt_setPoolAt (known_target (r := r.afterGates c) c.rule) _ pool

theorem roomFor_spec (hmax : 1 ≤ r.maxEntries) (hsize : size r.limiters ≤ r.maxEntries) {c : Call}
    (htarget : r.target c.rule = none) (e : KeyLimiter P) :
    size ((r.roomFor c).insert c.key e) ≤ r.maxEntries ∧ r.MakesRoom c.now (r.roomFor c) := by
  unfold roomFor
  rw [htarget]
  dsimp only
  by_cases hmem : c.key ∈ r.limiters
  · rw [if_pos hmem, size_insert_of_mem hmem]
    exact ⟨hsize, fun _ _ h => h, fun key e h hnot => absurd (lookup_eq_some_mem h) hnot⟩
  · rw [if_neg hmem]
    obtain ⟨hroom, hmakes⟩ : size (r.ensureCapacityLocked c.now) < r.maxEntries ∧
        r.MakesRoom c.now (r.ensureCapacityLocked c.now) := ensureCapacityLocked_spec hmax hsize
    have hnew : c.key ∉ r.ensureCapacityLocked c.now := by
      intro hkept
      obtain ⟨e, he⟩ := Option.isSome_iff_exists.mp (AList.lookup_isSome.mpr hkept)
      exact hmem (lookup_eq_some_mem (hmakes.kept _ _ he))
    rw [size_insert_of_notMem hnew]
    exact ⟨by omega, hmakes⟩

theorem allow_drops (hmax : 1 ≤ r.maxEntries) (hsize : size r.limiters ≤ r.maxEntries) {c : Call}
    {key : String} {e : KeyLimiter P} (h : r.limiters.lookup key = some e)
    (hnot : key ∉ (r.allow c).2.limiters) :
    r.Idle c.now e ∨ r.Oldest e := by
  change key ∉ (r.allow c).2.poolAt none at hnot
  rcases allow_poolAt r c with hsame | ⟨e', hpool⟩
  · rw [hsame] at hnot
    exact absurd (lookup_eq_some_mem h) hnot
  · rw [hpool] at hnot
    split at hnot
    · rename_i htarget
      rw [AList.mem_insert, not_or] at hnot
      exact (roomFor_spec hmax hsize htarget.symm e').2.dropped key e h hnot.2
    · exact absurd (lookup_eq_some_mem h) hnot

theorem size_allow_le (hmax : 1 ≤ r.maxEntries) (hsize : size r.limiters ≤ r.maxEntries) (c : Call) :
    size (r.allow c).2.limiters ≤ r.maxEntries := by
  change ((size ((r.allow c).2.poolAt none) : ℕ) : ℤ) ≤ _
  rcases allow_poolAt r c with hsame | ⟨e, hpool⟩
  · rw [hsame]
    exact hsize
  · rw [hpool]
    split
    · rename_i htarget
      exact (roomFor_spec hmax hsize htarget.symm e).1
    · exact hsize

theorem mem_allow_poolAt {c : Call} {name key : String} (h : key ∈ (r.allow c).2.poolAt (some name)) :
    key ∈ r.poolAt (some name) ∨ c.rule = name ∧ key = c.key := by
  rcases allow_poolAt r c with hsame | ⟨e, hpool⟩
  · rw [hsame] at h
    exact .inl h
  · rw [hpool] at h
    split at h
    · rename_i htarget
      have hroom : r.roomFor c = r.poolAt (some name) := by
        unfold roomFor
        rw [← htarget]
      have hrule : c.rule = name := by
        unfold target at htarget
        split at htarget
        · exact (Option.some_inj.mp htarget).symm
        · cases htarget
      rw [hroom, AList.mem_insert] at h
      exact h.elim (fun hkey => .inr ⟨hrule, hkey⟩) .inl
    · exact .inl h

theorem act_maxEntries (r : RateLimiter P) (x : Event) : (r.act x).maxEntries = r.maxEntries := by
  cases x with
  | turn x =>
    cases x with
    | tick now => rfl
    | request c =>
      have hset (r : RateLimiter P) (pool : Option String) (m : KeyLimiters P) :
          (r.setPoolAt pool m).maxEntries = r.maxEntries := by cases pool <;> rfl
      exact allow_keeps hset r c
  | addRule name rps burst => rfl
  | updateRates perKeyRPS perKeyBurst globalRPS globalBurst => rfl
  | setStore store rps burst key => rfl

theorem size_act_le (hmax : 1 ≤ r.maxEntries) (hsize : size r.limiters ≤ r.maxEntries) (x : Event) :
    size (r.act x).limiters ≤ r.maxEntries := by
  cases x with
  | turn x =>
    cases x with
    | request c => exact size_allow_le hmax hsize c
    | tick now => exact (Nat.cast_le.mpr size_keep_le).trans hsize
  | addRule name rps burst => exact hsize
  | updateRates perKeyRPS perKeyBurst globalRPS globalBurst =>
    exact (Nat.cast_le.mpr (size_remap _).le).trans hsize
  | setStore store rps burst key => exact hsize

theorem mem_act_poolAt {x : Event} {name key : String} (h : key ∈ (r.act x).poolAt (some name)) :
    key ∈ r.poolAt (some name) ∨ key ∈ keysUnder name [x] := by
  cases x with
  | turn x =>
    cases x with
    | request c =>
      rcases mem_allow_poolAt h with hkept | ⟨hrule, rfl⟩
      · exact .inl hkept
      · exact .inr (by simp [keysUnder, hrule])
    | tick now =>
      change key ∈ (r.cleanup now).poolAt (some name) at h
      rw [poolAt_cleanup] at h
      exact .inl (mem_of_mem_keep h)
  | addRule name' rps burst =>
    left
    change key ∈ ((Function.update r.rules name' (some { rps := rps, burst := burst })) name).elim ∅
      RuleLimiter.limiters at h
    by_cases hname : name = name'
    · rw [hname, Function.update_self] at h
      cases h
    · rwa [Function.update_of_ne hname] at h
  | updateRates perKeyRPS perKeyBurst globalRPS globalBurst =>
    left
    change key ∈ Option.elim ((r.rules name).map _) ∅ RuleLimiter.limiters at h
    change key ∈ (r.rules name).elim ∅ RuleLimiter.limiters
    cases hrl : r.rules name with
    | none =>
      rw [hrl] at h
      exact h
    | some rl =>
      rw [hrl, Option.map_some, Option.elim_some, AList.mem_keys, keys_remap, ← AList.mem_keys] at h
      exact h
  | setStore store rps burst key => exact .inl h

end RateLimiter

def afterEvents (P : RatePackage) (opts : Options) (maxEntries : ℤ) (events : List Event) :
    RateLimiter P :=
  events.foldl act { newRateLimiterWithOptions P opts with maxEntries := maxEntries }

section Runs
variable {opts : Options} {maxEntries : ℤ} {events : List Event}

theorem afterEvents_concat (x : Event) :
    afterEvents P opts maxEntries (events ++ [x]) = (afterEvents P opts maxEntries events).act x :=
  List.foldl_concat ..

theorem afterEvents_maxEntries : (afterEvents P opts maxEntries events).maxEntries = maxEntries := by
  induction events using List.reverseRecOn with
  | nil => rfl
  | append_singleton events x ih => rw [afterEvents_concat, act_maxEntries, ih]

theorem size_afterEvents_le (hmax : 1 ≤ maxEntries) :
    size (afterEvents P opts maxEntries events).limiters ≤ maxEntries := by
  induction events using List.reverseRecOn with
  | nil =>
    change ((0 : ℕ) : ℤ) ≤ maxEntries
    omega
  | append_singleton events x ih =>
    have hstep := size_act_le
        (r := afterEvents P opts maxEntries events) (by rw [afterEvents_maxEntries]; exact hmax)
      (by rw [afterEvents_maxEntries]; exact ih) x
    rw [afterEvents_maxEntries] at hstep
    rwa [afterEvents_concat]

theorem mem_afterEvents_poolAt {name key : String}
    (h : key ∈ (afterEvents P opts maxEntries events).poolAt (some name)) :
    key ∈ keysUnder name events := by
  induction events using List.reverseRecOn with
  | nil => cases h
  | append_singleton events x ih =>
    rw [afterEvents_concat] at h
    rw [keysUnder, List.filterMap_append]
    exact List.mem_append.mpr ((mem_act_poolAt h).imp ih id)

end Runs

/-- The map without a rule is kept within the capacity, and a request drops nothing from it but
what is idle or the oldest entry; the map of a rule is bounded by the keys requested under it. -/
theorem limiter_memory_bounded (P : RatePackage) (opts : Options) {maxEntries : ℤ}
    (hmax : 1 ≤ maxEntries) (events : List Event) :
    let r := afterEvents P opts maxEntries events
    size r.limiters ≤ maxEntries ∧
      (∀ name rl, r.rules name = some rl → size rl.limiters ≤ (keysUnder name events).dedup.length) ∧
      ∀ c key e, r.limiters.lookup key = some e → key ∉ (r.allow c).2.limiters → r.Idle c.now e ∨
        r.Oldest e := by
  intro r
  have hsize : size r.limiters ≤ maxEntries := size_afterEvents_le hmax
  have hmaxEntries : r.maxEntries = maxEntries := afterEvents_maxEntries
  refine ⟨hsize, fun name rl hrl => ?_, fun c key e h hnot => ?_⟩
  · apply size_le_of_mem
    intro key hkey
    have hpool : key ∈ r.poolAt (some name) := by
      rw [poolAt, hrl]
      exact hkey
    exact List.mem_dedup.mpr (mem_afterEvents_poolAt hpool)
  · rw [← hmaxEntries] at hmax hsize
    exact allow_drops hmax hsize h hnot

/-- Two keys at a capacity of one: the second drops the first. -/
theorem limiter_memory_bounded_two :
    let events : List Event := [.turn (.request { key := "a", now := Time.unixEpoch }),
      .turn (.request { key := "b", now := Time.unixEpoch })]
    (size (afterEvents .exact ⟨.gcra, 1, 1, 2, 2⟩ 1 events).limiters : ℤ) ≤ 1 :=
  (limiter_memory_bounded .exact ⟨.gcra, 1, 1, 2, 2⟩ le_rfl _).1

/-- Two keys under a rule, at a capacity of one. -/
theorem rule_exceeds_capacity :
    ((afterEvents .exact ⟨.gcra, 1, 1, 2, 2⟩ 1 [.addRule "rule" 1 1,
      .turn (.request { key := "a", rule := "rule", now := Time.unixEpoch }),
      .turn (.request { key := "b", rule := "rule", now := Time.unixEpoch })]).rules "rule").map
        (fun rl => size rl.limiters) = some 2 := by
  decide +kernel

end ReverseProxyLb.Limiter
