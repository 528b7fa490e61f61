import ReverseProxyLb.Limiter.Gcra

/-! A script keeps the arrival time of a key in microseconds, under a time to live of at
least the tolerance and two intervals. -/
namespace ReverseProxyLb

/-- `t.UnixMicro()`. -/
def Time.unixMicro (t : ℤ) : ℤ := sinceEpoch t / 1000

namespace Limiter
open Lib GcraLimiter

/-- A value set with an expiry, in microseconds. -/
structure Stored where
  value : ℤ
  expiresAt : ℤ

abbrev Database := String → Option Stored

/-- `GET`; a key exists until it expires. -/
def Database.get (db : Database) (key : String) (nowUs : ℤ) : Option ℤ :=
  (db key).bind fun st => if nowUs < st.expiresAt then some st.value else none

def gcraLuaScript (db : Database) (key : String) (burst periodUs nowUs : ℤ) : (ℤ × ℤ) × Database :=
  let tatUs := (db.get key nowUs).getD nowUs
  let tatUs := if tatUs < nowUs then nowUs else tatUs
  let newTat := tatUs + periodUs
  let allowAt := newTat - burst * periodUs
  if nowUs < allowAt then ((0, allowAt - nowUs), db)
  else
    let ttlUs := (burst + 1) * periodUs
    let ttlSec := ⌈(ttlUs : ℚ) / 1000000⌉
    let ttlSec := if ttlSec < 1 then 1 else ttlSec
    ((1, 0), Function.update db key (some ⟨newTat, nowUs + ttlSec * 1000000⟩))

structure RedisStore where
  keyPrefix : String := "rplb:rl"
  db : Database := fun _ => none

/-- What becomes of the call to Redis: it returns, or fails with the script run or not. -/
inductive Link where
  | up
  | lost (ran : Bool)
  deriving DecidableEq, Repr

namespace RedisStore

def fullKey (r : RedisStore) (key : String) : String := r.keyPrefix ++ ":" ++ key

def allow (r : RedisStore) (link : Link) (key : String) (rps : ℚ) (burst now : ℤ) :
    (Bool × ℤ) × RedisStore :=
  if rps ≤ 0 then ((true, 0), r) else
    let burst := if burst < 1 then 1 else burst
    let periodUs := Time.ofFloat64 (float64 (1000000 / rps))
    let (result, db) := gcraLuaScript r.db (r.fullKey key) burst periodUs (Time.unixMicro now)
    match link with
    | .lost ran => ((true, 0), if ran then { r with db := db } else r)
    | .up =>
      if result.1 = 1 then ((true, 0), { r with db := db })
      else ((false, int64 (result.2 * 1000)), { r with db := db })

def instant (us : ℤ) : ℤ := Time.unixEpoch + 1000 * us

@[simp] theorem unixMicro_instant (us : ℤ) : Time.unixMicro (instant us) = us := by
  unfold Time.unixMicro Time.sinceEpoch instant
  omega

theorem instant_le_iff {us us' : ℤ} : instant us ≤ instant us' ↔ us ≤ us' := by
  unfold instant
  omega

theorem map_instant_le {s : WithBot ℤ} {us : ℤ} (h : s ≤ us) :
    s.map instant ≤ (instant us : WithBot ℤ) := by
  induction s using WithBot.recBotCoe with
  | bot => exact bot_le
  | coe a => exact WithBot.coe_le_coe.mpr (instant_le_iff.mpr (WithBot.coe_le_coe.mp h))

theorem dyadic_period {rps : ℚ} {p : ℕ} (hf : float64 rps = rps) (hp : 1000000 / rps = p)
    (hpos : 0 < p) :
    ∃ m e : ℕ, 0 < m ∧ m ≤ 15625 ∧ p = m * 2 ^ e := by
  obtain ⟨n, k, hn⟩ := float64_dyadic rps
  rw [hf] at hn
  have hrps : rps ≠ 0 := by
    rintro rfl
    rw [div_zero] at hp
    have : p = 0 := by exact_mod_cast hp.symm
    omega
  have hprod : (p : ℚ) * (n * 2 ^ k) = 1000000 := by
    rw [← hn, ← hp, div_mul_cancel₀ _ hrps]
  obtain ⟨j, hj⟩ : ∃ j : ℕ, (p : ℤ) ∣ 5 ^ 6 * 2 ^ j := by
    cases k with
    | ofNat a =>
      refine ⟨6, n * 2 ^ a, ?_⟩
      have : (5 ^ 6 * 2 ^ 6 : ℚ) = p * (n * 2 ^ a) := by
        rw [Int.ofNat_eq_natCast, zpow_natCast] at hprod
        rw [hprod]
        norm_num
      exact_mod_cast this
    | negSucc a =>
      refine ⟨6 + (a + 1), n, ?_⟩
      have : (5 ^ 6 * 2 ^ (6 + (a + 1)) : ℚ) = p * n := by
        rw [zpow_negSucc, ← mul_assoc, mul_inv_eq_iff_eq_mul₀ (by positivity)] at hprod
        rw [hprod, pow_add]
        norm_num
        ring
      exact_mod_cast this
  obtain ⟨e, m, hodd, rfl⟩ := Nat.exists_eq_two_pow_mul_odd hpos.ne'
  have hdvd : m ∣ 5 ^ 6 := by
    have hfull : 2 ^ e * m ∣ 5 ^ 6 * 2 ^ j := by exact_mod_cast hj
    have hcop : Nat.Coprime m (2 ^ j) := (Nat.coprime_two_right.mpr hodd).pow_right j
    exact hcop.dvd_of_dvd_mul_right (dvd_of_mul_left_dvd hfull)
  exact ⟨m, e, hodd.pos, Nat.le_of_dvd (by norm_num) hdvd, mul_comm _ _⟩

theorem rps_pos {rps : ℚ} {p : ℕ} (hp : 1000000 / rps = p) (hpos : 0 < p) : 0 < rps := by
  by_contra hle
  have hneg : 1000000 / rps ≤ 0 := div_nonpos_of_nonneg_of_nonpos (by norm_num) (not_lt.mp hle)
  rw [hp] at hneg
  have : (0 : ℚ) < p := by exact_mod_cast hpos
  linarith

section Periods
variable {rps : ℚ} {p : ℕ} (hf : float64 rps = rps) (hp : 1000000 / rps = p) (hpos : 0 < p)
  (hmax : 1000 * (p : ℤ) ≤ Time.maxDuration)
include hf hp hpos hmax

theorem period_eq : Time.ofFloat64 (float64 (1000000 / rps)) = p := by
  obtain ⟨m, e, hm, hm', hpe⟩ := dyadic_period hf hp hpos
  have hq : (p : ℚ) = m * 2 ^ (e : ℤ) := by
    rw [hpe, zpow_natCast]
    push_cast
    rfl
  rw [hp, hq, float64_of_dyadic hm (by omega), ← hq, ← Int.cast_natCast]
  exact Time.ofFloat64_intCast (by unfold Time.minDuration; omega) (by omega)

theorem emission_eq (burst : ℤ) : (newGCRA rps burst).emission = 1000 * p := by
  obtain ⟨m, e, hm, hm', hpe⟩ := dyadic_period hf hp hpos
  have hq : Time.second / rps = ((125 * m : ℕ) : ℚ) * 2 ^ ((e : ℤ) + 3) := by
    have : (Time.second : ℚ) / rps = 1000 * (1000000 / rps) := by
      unfold Time.second
      push_cast
      ring
    rw [this, hp, hpe, zpow_add₀ (by norm_num), zpow_natCast]
    push_cast
    ring
  have hn : ((125 * m : ℕ) : ℚ) * 2 ^ ((e : ℤ) + 3) = ((1000 * p : ℤ) : ℚ) := by
    rw [hpe, zpow_add₀ (by norm_num), zpow_natCast]
    push_cast
    ring
  change (if rps ≤ 0 then 2 ^ 62 - 1 else Time.ofFloat64 (float64 (Time.second / rps))) = _
  rw [if_neg (not_le.mpr (rps_pos hp hpos)), hq, float64_of_dyadic (by omega) (by omega), hn]
  exact Time.ofFloat64_intCast (by unfold Time.minDuration; omega) hmax

end Periods

def found (db : Database) (key : String) (us : ℤ) : WithBot ℤ := (db.get key us).elim ⊥ WithBot.some

def scriptMeter (burst period : ℤ) : Meter ℤ := ⟨period, (burst - 1) * period⟩

theorem arrival_found (db : Database) (key : String) (us : ℤ) :
    (if (db.get key us).getD us < us then us else (db.get key us).getD us) =
      Meter.arrival (found db key us) us := by
  unfold found
  cases db.get key us with
  | none => simp
  | some a =>
    change (if a < us then us else a) = max a us
    split <;> omega

variable {db : Database} {key : String} {burst period us : ℤ}

theorem script_refuses (h : ¬ Meter.arrival (found db key us) us - (burst - 1) * period ≤ us) :
    gcraLuaScript db key burst period us =
      ((0, Meter.arrival (found db key us) us - (burst - 1) * period - us), db) := by
  have hshift : ∀ a : ℤ, a + period - burst * period = a - (burst - 1) * period := fun a => by ring
  unfold gcraLuaScript
  dsimp only
  rw [arrival_found, hshift, if_pos (not_le.mp h)]

theorem script_allows (h : Meter.arrival (found db key us) us - (burst - 1) * period ≤ us) :
    ∃ expiresAt, us + (burst + 1) * period ≤ expiresAt ∧ gcraLuaScript db key burst period us =
      ((1, 0), Function.update db key
        (some ⟨Meter.arrival (found db key us) us + period, expiresAt⟩)) := by
  have hshift : ∀ a : ℤ, a + period - burst * period = a - (burst - 1) * period := fun a => by ring
  unfold gcraLuaScript
  dsimp only
  rw [arrival_found, hshift, if_neg (not_lt.mpr h)]
  refine ⟨_, ?_, rfl⟩
  have hceil : (burst + 1) * period ≤ ⌈(((burst + 1) * period : ℤ) : ℚ) / 1000000⌉ * 1000000 := by
    have := Int.le_ceil ((((burst + 1) * period : ℤ) : ℚ) / 1000000)
    rw [div_le_iff₀ (by norm_num)] at this
    exact_mod_cast this
  split_ifs <;> omega

theorem found_update_self {value expiresAt : ℤ} (h : us < expiresAt) :
    found (Function.update db key (some ⟨value, expiresAt⟩)) key us = value := by
  simp [found, Database.get, h]

theorem found_update_ne {key' : String} {st : Stored} (h : key' ≠ key) :
    found (Function.update db key (some st)) key' us = found db key' us := by
  simp [found, Database.get, h]

theorem found_later {us' : ℤ} (hle : us ≤ us')
    (hlast : ∀ st, db key = some st → st.value ≤ st.expiresAt) :
    found db key us' = found db key us ∨ found db key us' = ⊥ ∧ found db key us ≤ us' := by
  unfold found Database.get
  cases hdb : db key with
  | none => exact .inl rfl
  | some st =>
    have := hlast st hdb
    simp only [Option.bind_some]
    by_cases hnow : us' < st.expiresAt
    · rw [if_pos hnow, if_pos (by omega)]
      exact .inl rfl
    · rw [if_neg hnow]
      right
      refine ⟨rfl, ?_⟩
      split_ifs
      · exact WithBot.coe_le_coe.mpr (by omega)
      · exact bot_le

theorem fullKey_injective (r : RedisStore) {key key' : String} (h : r.fullKey key = r.fullKey key') :
    key = key' := by
  unfold fullKey at h
  rw [← String.toList_inj] at h ⊢
  simpa using h

theorem reserve_instant (m : Meter ℤ) (s : WithBot ℤ) (us : ℤ) :
    (Meter.mk (1000 * m.interval) (1000 * m.tolerance)).reserve (s.map instant) (instant us) =
      (((m.reserve s us).1.1, 1000 * (m.reserve s us).1.2), (m.reserve s us).2.map instant) := by
  have hmap :=
    Meter.reserve_map (m := m) (AddMonoidHom.mulLeft (1000 : ℤ)) (fun a b hab => by simpa using hab)
    Time.unixEpoch s us
  simp only [AddMonoidHom.coe_mulLeft] at hmap
  exact hmap

def callAt (rps : ℚ) (burst : ℤ) (r : RedisStore) (x : String × ℤ) : (Bool × ℤ) × RedisStore :=
  r.allow .up x.1 rps burst (instant x.2)

def localAt : (String → GcraLimiter) → String × ℤ → (Bool × ℤ) × (String → GcraLimiter) :=
  keyed fun g us => g.reserve (instant us)

section Call
variable {rps : ℚ} {burst : ℤ} {period : ℕ} {us : ℤ} {r : RedisStore} {key : String}
  (hf : float64 rps = rps) (hp : 1000000 / rps = period) (hpos : 0 < period) (hb : 1 ≤ burst)
  (hmax : 1000 * (period : ℤ) ≤ Time.maxDuration)
include hf hp hpos hb hmax

theorem callAt_eq : callAt rps burst r (key, us) =
    let script := gcraLuaScript r.db (r.fullKey key) burst period us
    if script.1.1 = 1 then ((true, 0), { r with db := script.2 })
    else ((false, int64 (script.1.2 * 1000)), { r with db := script.2 }) := by
  unfold callAt allow
  rw [if_neg (not_le.mpr (rps_pos hp hpos)), if_neg (not_lt.mpr hb), period_eq hf hp hpos hmax,
    unixMicro_instant]

theorem callAt_refused
    (h : ¬ Meter.arrival (found r.db (r.fullKey key) us) us - (burst - 1) * period ≤ us) :
    callAt rps burst r (key, us) =
      ((false,
        int64 ((Meter.arrival (found r.db (r.fullKey key) us) us - (burst - 1) * period - us) * 1000)),
        r) := by
  rw [callAt_eq hf hp hpos hb hmax, script_refuses h]
  rfl

theorem callAt_allowed
    (h : Meter.arrival (found r.db (r.fullKey key) us) us - (burst - 1) * period ≤ us) :
    ∃ expiresAt, us + (burst + 1) * period ≤ expiresAt ∧ callAt rps burst r (key, us) =
      ((true, 0), { r with
        db := Function.update r.db (r.fullKey key)
          (some ⟨Meter.arrival (found r.db (r.fullKey key) us) us + period, expiresAt⟩) }) := by
  obtain ⟨expiresAt, hlong, hscript⟩ := script_allows h
  refine ⟨expiresAt, hlong, ?_⟩
  rw [callAt_eq hf hp hpos hb hmax, hscript]
  rfl

end Call

/-- The store and the local limiters as they stand at a time. -/
structure Related (rps : ℚ) (burst : ℤ) (period : ℕ) (us : ℤ) (r : RedisStore)
    (f : String → GcraLimiter) : Prop where
  config : ∀ key, f key = { newGCRA rps burst with tat := (f key).tat }
  debt : ∀ key, (f key).tat ≤ instant us + 1000 * period * burst
  lasts : ∀ key st, r.db (r.fullKey key) = some st → st.value ≤ st.expiresAt
  agree : ∀ key, Meter.Agree (instant us) ((found r.db (r.fullKey key) us).map instant) (f key).tat

namespace Related
variable {rps : ℚ} {burst : ℤ} {period : ℕ} {us us' : ℤ} {r : RedisStore} {f : String → GcraLimiter}

theorem later (h : Related rps burst period us r f) (hle : us ≤ us') :
    Related rps burst period us' r f where
  config := h.config
  debt key := (h.debt key).trans (by have := instant_le_iff.mpr hle; omega)
  lasts := h.lasts
  agree key := by
    have hmono := (h.agree key).mono (instant_le_iff.mpr hle)
    rcases found_later hle (h.lasts key) with hsame | ⟨hgone, hpast⟩
    · rwa [hsame]
    · rw [hgone]
      right
      refine ⟨bot_le, ?_⟩
      rcases hmono with heq | ⟨-, hle'⟩
      · rw [← heq]
        exact map_instant_le hpast
      · exact hle'

theorem wait_le (h : Related rps burst period us r f) (hb : 1 ≤ burst) (key : String) :
    Meter.arrival ((f key).tat : WithBot ℤ) (instant us) - 1000 * ((burst - 1) * period) - instant us ≤
      1000 * period := by
  have hdebt := h.debt key
  have hsplit : 1000 * (period : ℤ) * burst = 1000 * ((burst - 1) * period) + 1000 * period := by ring
  have htol : 0 ≤ (burst - 1) * (period : ℤ) := mul_nonneg (by omega) (by omega)
  rw [Meter.arrival_coe]
  omega

variable (hf : float64 rps = rps) (hp : 1000000 / rps = period) (hpos : 0 < period) (hb : 1 ≤ burst)
  (hmax : 1000 * (period : ℤ) ≤ Time.maxDuration)
    (ho : 1000 * (period : ℤ) * (burst - 1) ≤ Time.maxDuration)
include hf hp hpos hb hmax ho

theorem meter_eq (h : Related rps burst period us r f) (key : String) :
    (f key).meter = ⟨1000 * (scriptMeter burst period).interval,
      1000 * (scriptMeter burst period).tolerance⟩ := by
  have hemission := emission_eq hf hp hpos hmax burst
  have htolerance : (newGCRA rps burst).tolerance = 1000 * (period : ℤ) * (burst - 1) := by
    rw [newGCRA_tolerance hb
      (by rw [hemission]; exact mul_nonneg (by omega) (by omega)) (hemission ▸ ho), hemission]
  rw [h.config key]
  change Meter.mk (newGCRA rps burst).emission (newGCRA rps burst).tolerance = _
  rw [hemission, htolerance, scriptMeter]
  congr 1
  ring

theorem reserve_eq (h : Related rps burst period us r f) (key : String) :
    let metered := (scriptMeter burst period).reserve (found r.db (r.fullKey key) us) us
    ((f key).reserve (instant us)).1 = clip (metered.1.1, 1000 * metered.1.2) ∧
      1000 * metered.1.2 ≤ Time.maxDuration ∧
      Meter.Agree (instant us) (metered.2.map instant) ((f key).reserve (instant us)).2.tat ∧
      ((f key).reserve (instant us)).2 =
        { f key with tat := ((f key).reserve (instant us)).2.tat } := by
  intro metered
  have hburst : 1 ≤ (f key).burst := by
    rw [h.config key]
    exact hb
  obtain ⟨hreply, htat, hrest⟩ := reserve_meter hburst (instant us)
  obtain ⟨hsame, hagree⟩ := (h.agree key).reserve (m := (f key).meter) le_rfl
  rw [h.meter_eq hf hp hpos hb hmax ho key] at hreply htat hsame hagree
  rw [reserve_instant] at hsame hagree
  refine ⟨?_, ?_, htat ▸ hagree, hrest⟩
  · rw [hreply, ← hsame]
  · have hwait : 1000 * metered.1.2 = (Meter.reserve _ ((f key).tat : WithBot ℤ) (instant us)).1.2 :=
      congrArg Prod.snd hsame
    rw [hwait]
    by_cases hle : Meter.arrival ((f key).tat : WithBot ℤ) (instant us) - 1000 *
      ((burst - 1) * period) ≤ instant us
    · rw [Meter.reserve_of_le hle]
      exact (by decide : (0 : ℤ) ≤ Time.maxDuration)
    · rw [Meter.reserve_of_not_le hle]
      exact (h.wait_le hb key).trans hmax

theorem reply_refused (h : Related rps burst period us r f) (key : String)
    (hlate : ¬ Meter.arrival (found r.db (r.fullKey key) us) us - (burst - 1) * period ≤ us) :
    (callAt rps burst r (key, us)).1 = (localAt f (key, us)).1 ∧
      Related rps burst period us (callAt rps burst r (key, us)).2 (localAt f (key, us)).2 := by
  obtain ⟨hreply, hwait, -, -⟩ := h.reserve_eq hf hp hpos hb hmax ho key
  have hmetered : (scriptMeter burst period).reserve (found r.db (r.fullKey key) us) us = _ :=
    Meter.reserve_of_not_le hlate
  rw [hmetered] at hreply hwait
  have hpositive : 0 ≤
      1000 * (Meter.arrival (found r.db (r.fullKey key) us) us - (burst - 1) * period - us) := by
    omega
  have hsame : ((f key).reserve (instant us)).2 = f key := reserve_refused (by rw [hreply]; rfl)
  have hlocal : (localAt f (key, us)).2 = f := by
    change Function.update f key ((f key).reserve (instant us)).2 = f
    rw [hsame, Function.update_eq_self]
  rw [callAt_refused hf hp hpos hb hmax hlate, hlocal]
  refine ⟨?_, h⟩
  change _ = ((f key).reserve (instant us)).1
  rw [hreply, clip, mul_comm _ 1000, int64_of_bounds hpositive hwait]
  change _ = (false,
    Time.saturate (1000 *
    (Meter.arrival (found r.db (r.fullKey key) us) us - (burst - 1) * period - us)))
  rw [Time.saturate_of_le hpositive hwait]

theorem reply_allowed (h : Related rps burst period us r f) (key : String)
    (hle : Meter.arrival (found r.db (r.fullKey key) us) us - (burst - 1) * period ≤ us) :
    (callAt rps burst r (key, us)).1 = (localAt f (key, us)).1 ∧
      Related rps burst period us (callAt rps burst r (key, us)).2 (localAt f (key, us)).2 := by
  obtain ⟨hreply, -, hagree, hrest⟩ := h.reserve_eq hf hp hpos hb hmax ho key
  have hmetered : (scriptMeter burst period).reserve (found r.db (r.fullKey key) us) us = _ :=
    Meter.reserve_of_le hle
  rw [hmetered] at hreply hagree
  obtain ⟨expiresAt, hlong, hcall⟩ := callAt_allowed hf hp hpos hb hmax hle
  have hlocal : (localAt f (key, us)).2 = Function.update f key ((f key).reserve (instant us)).2 := rfl
  have hsplit : (burst + 1) * (period : ℤ) = (burst - 1) * period + 2 * period := by ring
  have htol : 0 ≤ (burst - 1) * (period : ℤ) := mul_nonneg (by omega) (by omega)
  rw [hcall, hlocal]
  refine ⟨hreply.symm, ?_, ?_, ?_, ?_⟩
  · intro key'
    by_cases hk : key' = key
    · subst hk
      rw [Function.update_self, hrest, h.config key']
    · rw [Function.update_of_ne hk]
      exact h.config key'
  · intro key'
    by_cases hk : key' = key
    · subst hk
      have hburst : 1000 * (period : ℤ) * burst = 1000 * ((burst - 1) * period) + 1000 * period := by
        ring
      rw [Function.update_self]
      rcases hagree with heq | ⟨-, hpast⟩
      · rw [← WithBot.coe_injective heq]
        unfold instant
        change _ + 1000 * (_ + (period : ℤ)) ≤ _
        omega
      · have := WithBot.coe_le_coe.mp hpast
        omega
    · rw [Function.update_of_ne hk]
      exact h.debt key'
  · intro key' st hst
    by_cases hk : key' = key
    · subst hk
      change Function.update r.db (r.fullKey key') _ (r.fullKey key') = some st at hst
      rw [Function.update_self] at hst
      cases hst
      dsimp only
      omega
    · change Function.update r.db (r.fullKey key) _ (r.fullKey key') = some st at hst
      rw [Function.update_of_ne fun he => hk (fullKey_injective r he)] at hst
      exact h.lasts key' st hst
  · intro key'
    by_cases hk : key' = key
    · subst hk
      rw [Function.update_self]
      change Meter.Agree _
        ((found (Function.update r.db (r.fullKey key') _) (r.fullKey key') us).map instant) _
      rw [found_update_self (by omega)]
      exact hagree
    · rw [Function.update_of_ne hk]
      change Meter.Agree _
        ((found (Function.update r.db (r.fullKey key) _) (r.fullKey key') us).map instant) _
      rw [found_update_ne fun he => hk (fullKey_injective r he)]
      exact h.agree key'

theorem reply (h : Related rps burst period us r f) (key : String) :
    (callAt rps burst r (key, us)).1 = (localAt f (key, us)).1 ∧
      Related rps burst period us (callAt rps burst r (key, us)).2 (localAt f (key, us)).2 := by
  by_cases hle : Meter.arrival (found r.db (r.fullKey key) us) us - (burst - 1) * period ≤ us
  · exact h.reply_allowed hf hp hpos hb hmax ho key hle
  · exact h.reply_refused hf hp hpos hb hmax ho key hle

end Related

def zeroMicro : ℤ := -62135596800000000

theorem related_init {rps : ℚ} {burst : ℤ} {period : ℕ} (hb : 1 ≤ burst) (keyPrefix : String) :
    Related rps burst period zeroMicro { keyPrefix := keyPrefix } fun _ => newGCRA rps burst where
  config _ := rfl
  debt _ := by
    have hzero : instant zeroMicro = 0 := by decide
    rw [hzero, zero_add]
    exact mul_nonneg (by omega) (by omega)
  lasts _ _ h := by cases h
  agree _ := .inr ⟨bot_le, WithBot.coe_le_coe.mpr (by decide : (0 : ℤ) ≤ instant zeroMicro)⟩

/-- The script with expiring keys replies as one local limiter for each key, which forgets
nothing, as long as the interval and the tolerance are durations. -/
theorem redisStore_refines_gcra {rps : ℚ} {burst : ℤ} {period : ℕ} (hf : float64 rps = rps)
    (hp : 1000000 / rps = period) (hpos : 0 < period) (hb : 1 ≤ burst)
    (hmax : 1000 * (period : ℤ) ≤ Time.maxDuration)
    (ho : 1000 * (period : ℤ) * (burst - 1) ≤ Time.maxDuration) (keyPrefix : String)
    (calls : List (String × ℤ)) (hsorted : (calls.map Prod.snd).Pairwise (· ≤ ·))
    (hstart : ∀ x ∈ calls, 0 ≤ instant x.2) :
    replies (callAt rps burst) { keyPrefix := keyPrefix } calls =
      replies localAt (fun _ => newGCRA rps burst) calls := by
  have htime : InTime Prod.snd zeroMicro calls := by
    refine List.pairwise_cons.mpr ⟨fun us hus => ?_, hsorted⟩
    obtain ⟨x, hx, rfl⟩ := List.mem_map.mp hus
    have := hstart x hx
    unfold instant Time.unixEpoch Time.second at this
    unfold zeroMicro
    omega
  have hstep : ∀ us r f x, Related rps burst period us r f → us ≤ x.2 →
      (callAt rps burst r x).1 = (localAt f x).1 ∧
        Related rps burst period x.2 (callAt rps burst r x).2 (localAt f x).2 :=
    fun us r f x h hle => (h.later hle).reply hf hp hpos hb hmax ho x.1
  exact replies_eq_of_related hstep (related_init hb keyPrefix) htime

/-- Two keys at one event a second in bursts of two; by the last call the first key has expired. -/
theorem redisStore_refines_gcra_expired :
    let calls : List (String × ℤ) := [("a", 0), ("a", 0), ("b", 1), ("a", 2), ("a", 3000000)]
    replies (callAt 1 2) {} calls = [(true, 0), (true, 0), (true, 0), (false, 999998000), (true, 0)] ∧
      replies (callAt 1 2) {} calls = replies localAt (fun _ => newGCRA 1 2) calls := by
  intro calls
  refine ⟨by decide +kernel, ?_⟩
  have hp : (1000000 / 1 : ℚ) = (1000000 : ℕ) := by norm_num
  exact redisStore_refines_gcra (by decide +kernel) hp
    (by decide) (by decide) (by decide) (by decide) _ calls
    (by decide) (by decide)

/-- The local limiter's tolerance overflows; its interval overflows; it starts after the call. -/
theorem redisStore_differs :
    (1000000 / 1 = (1000000 : ℚ) ∧
      replies (callAt 1 10000000000) {} [("k", 0)] ≠
        replies localAt (fun _ => newGCRA 1 10000000000) [("k", 0)]) ∧
    (1000000 / (15625 / 2 ^ 48 : ℚ) = 2 ^ 54 ∧
      replies (callAt (15625 / 2 ^ 48) 1) {} [("k", 0), ("k", 0)] ≠
        replies localAt (fun _ => newGCRA (15625 / 2 ^ 48) 1) [("k", 0), ("k", 0)]) ∧
    replies (callAt 1 1) {} [("k", zeroMicro - 1)] ≠
      replies localAt (fun _ => newGCRA 1 1) [("k", zeroMicro - 1)] := by
  refine ⟨⟨by norm_num, by decide +kernel⟩, ⟨by norm_num, by decide +kernel⟩, by decide +kernel⟩

end RedisStore
end Limiter
end ReverseProxyLb
