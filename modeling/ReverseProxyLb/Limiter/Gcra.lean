import ReverseProxyLb.Base.Number
import ReverseProxyLb.Lib.Meter

/-! The limiter keeps one instant, the theoretical arrival time. An admission moves it on by
at least one interval, and leaves it no more than the tolerance and one interval ahead. -/
namespace ReverseProxyLb.Limiter
open Lib

structure GcraLimiter where
  emission : ℤ
  tolerance : ℤ
  tat : ℤ
  rps : ℚ
  burst : ℤ
  deriving Repr, DecidableEq

namespace GcraLimiter

def configure (g : GcraLimiter) (rps : ℚ) (burst : ℤ) : GcraLimiter :=
  let emission := if rps ≤ 0 then 2 ^ 62 - 1 else Time.ofFloat64 (float64 (Time.second / rps))
  { g with
    rps := rps
    burst := burst
    emission := emission
    tolerance := if burst < 1 then 0 else int64 (emission * (burst - 1)) }

def newGCRA (rps : ℚ) (burst : ℤ) : GcraLimiter :=
  configure { emission := 0, tolerance := 0, tat := 0, rps := rps, burst := burst } rps burst

/-- Whether the event is admitted and how long until a slot frees up, with the
limiter left behind. -/
def reserve (g : GcraLimiter) (now : ℤ) : (Bool × ℤ) × GcraLimiter :=
  if g.burst < 1 then ((false, 0), g) else
    let tat := if g.tat < now then now else g.tat
    let allowAt := tat - g.tolerance
    if now < allowAt then ((false, Time.sub allowAt now), g)
    else ((true, 0), { g with tat := tat + g.emission })

theorem reserve_refused {g : GcraLimiter} {now : ℤ} (h : (g.reserve now).1.1 = false) :
    (g.reserve now).2 = g := by
  unfold reserve at h ⊢
  dsimp only at h ⊢
  split_ifs at h ⊢ <;> rfl

def meter (g : GcraLimiter) : Meter ℤ := ⟨g.emission, g.tolerance⟩

def clip (r : Bool × ℤ) : Bool × ℤ := (r.1, Time.saturate r.2)

@[simp] theorem clip_fst (r : Bool × ℤ) : (clip r).1 = r.1 := rfl

@[simp] theorem clip_admitted : clip (true, 0) = (true, 0) := rfl

theorem reserve_meter {g : GcraLimiter} (hb : 1 ≤ g.burst) (now : ℤ) :
    (g.reserve now).1 = clip (g.meter.reserve g.tat now).1 ∧
      ((g.reserve now).2.tat : WithBot ℤ) = (g.meter.reserve g.tat now).2 ∧
      (g.reserve now).2 = { g with tat := (g.reserve now).2.tat } := by
  have harrival : Meter.arrival (g.tat : WithBot ℤ) now = if g.tat < now then now else g.tat := by
    rw [Meter.arrival_coe]
    split <;> omega
  unfold reserve
  rw [if_neg (not_lt.mpr hb)]
  dsimp only
  rw [← harrival]
  by_cases hlt : now < Meter.arrival (g.tat : WithBot ℤ) now - g.tolerance
  · rw [if_pos hlt, Meter.reserve_of_not_le (not_le.mpr hlt)]
    exact ⟨rfl, rfl, rfl⟩
  · rw [if_neg hlt, Meter.reserve_of_le (not_lt.mp hlt)]
    exact ⟨rfl, rfl, rfl⟩

theorem replies_reserve {g : GcraLimiter} (hb : 1 ≤ g.burst) (calls : List ℤ) :
    replies reserve g calls = (replies g.meter.reserve g.tat calls).map clip := by
  induction calls generalizing g with
  | nil => rfl
  | cons now calls ih =>
    obtain ⟨hreply, htat, hrest⟩ := reserve_meter hb now
    have hburst : (g.reserve now).2.burst = g.burst := by rw [hrest]
    have hmeter : (g.reserve now).2.meter = g.meter := by rw [hrest]; rfl
    rw [replies_cons, replies_cons, List.map_cons, hreply, ih (hburst ▸ hb), htat, hmeter]

theorem map_clip {rs : List (Bool × ℤ)} (h₀ : ∀ r ∈ rs, 0 ≤ r.2)
    (h₁ : ∀ r ∈ rs, r.2 ≤ Time.maxDuration) :
    rs.map clip = rs := by
  have hid : ∀ r ∈ rs, clip r = id r := by
    intro r hr
    rw [clip, Time.saturate_of_le (h₀ r hr) (h₁ r hr)]
    rfl
  rw [List.map_congr_left hid, List.map_id]

theorem newGCRA_tolerance {rps : ℚ} {burst : ℤ} (hb : 1 ≤ burst)
    (h₀ : 0 ≤ (newGCRA rps burst).emission * (burst - 1))
    (h₁ : (newGCRA rps burst).emission * (burst - 1) ≤ Time.maxDuration) :
    (newGCRA rps burst).tolerance = (newGCRA rps burst).emission * (burst - 1) := by
  change (if burst < 1 then 0 else int64 ((newGCRA rps burst).emission * (burst - 1))) = _
  rw [if_neg (not_lt.mpr hb), int64_of_bounds h₀ h₁]

def after (g : GcraLimiter) (calls : List ℤ) : GcraLimiter :=
  calls.foldl (fun g now => (g.reserve now).2) g

def admitted (g : GcraLimiter) : List ℤ → List ℤ
  | [] => []
  | now :: calls =>
    if (g.reserve now).1.1 then now :: (g.reserve now).2.admitted calls
    else (g.reserve now).2.admitted calls

/-- How many admitted calls carry a timestamp of the window `[s, s + d]`. -/
def admittedWithin (g : GcraLimiter) (s d : ℤ) (calls : List ℤ) : ℕ :=
  (g.admitted calls).countP fun t => decide (s ≤ t ∧ t ≤ s + d)

/-- Configured as `configure` leaves a limiter of burst at least one. -/
structure Tuned (g : GcraLimiter) : Prop where
  burst_pos : 1 ≤ g.burst
  emission_pos : 0 < g.emission
  tolerance_eq : g.tolerance = g.emission * (g.burst - 1)

theorem tuned_newGCRA {rps : ℚ} {burst : ℤ} (hb : 1 ≤ burst)
    (he : 0 < (newGCRA rps burst).emission)
    (ho : (newGCRA rps burst).emission * (burst - 1) ≤ Time.maxDuration) :
    (newGCRA rps burst).Tuned where
  burst_pos := hb
  emission_pos := he
  tolerance_eq := newGCRA_tolerance hb (mul_nonneg he.le (by omega)) ho

section Tuned
variable {g : GcraLimiter}

theorem Tuned.tolerance_nonneg (h : g.Tuned) : 0 ≤ g.tolerance := by
  rw [h.tolerance_eq]
  exact mul_nonneg h.emission_pos.le (by have := h.burst_pos; omega)

theorem reserve_eq (h : g.Tuned) (now : ℤ) :
    g.reserve now =
      if g.tat - g.tolerance ≤ now then ((true, 0), { g with tat := max g.tat now + g.emission })
      else ((false, Time.sub (g.tat - g.tolerance) now), g) := by
  have ht := h.tolerance_nonneg
  rw [reserve, if_neg (by have := h.burst_pos; omega)]
  by_cases hlt : g.tat < now
  · simp only [if_pos hlt, max_eq_right hlt.le]
    rw [if_neg (by omega), if_pos (by omega)]
  · simp only [if_neg hlt, max_eq_left (not_lt.mp hlt)]
    by_cases hle : g.tat - g.tolerance ≤ now
    · rw [if_neg (by omega), if_pos hle]
    · rw [if_pos (by omega), if_neg hle]

theorem reserve_admits (h : g.Tuned) (now : ℤ) :
    (g.reserve now).1.1 = true ↔ g.tat - g.tolerance ≤ now := by
  rw [reserve_eq h]
  split <;> simp_all

theorem reserve_tat (h : g.Tuned) (now : ℤ) :
    (g.reserve now).2.tat =
      if (g.reserve now).1.1 then max g.tat now + g.emission else g.tat := by
  rw [reserve_eq h]
  split <;> simp

@[simp] theorem reserve_emission (now : ℤ) : (g.reserve now).2.emission = g.emission := by
  unfold reserve
  dsimp only
  split_ifs <;> rfl

@[simp] theorem reserve_tolerance (now : ℤ) : (g.reserve now).2.tolerance = g.tolerance := by
  unfold reserve
  dsimp only
  split_ifs <;> rfl

@[simp] theorem reserve_burst (now : ℤ) : (g.reserve now).2.burst = g.burst := by
  unfold reserve
  dsimp only
  split_ifs <;> rfl

theorem Tuned.reserve (h : g.Tuned) (now : ℤ) : (g.reserve now).2.Tuned := by
  constructor
  · simpa using h.burst_pos
  · simpa using h.emission_pos
  · simpa using h.tolerance_eq

theorem Tuned.after (h : g.Tuned) (calls : List ℤ) : (g.after calls).Tuned := by
  induction calls generalizing g with
  | nil => exact h
  | cons now calls ih => exact ih (h.reserve now)

theorem admittedWithin_cons (s d now : ℤ) (calls : List ℤ) :
    g.admittedWithin s d (now :: calls) =
      (g.reserve now).2.admittedWithin s d calls +
        (if (g.reserve now).1.1 = true ∧ s ≤ now ∧ now ≤ s + d then 1 else 0) := by
  unfold admittedWithin
  rw [admitted]
  by_cases ha : (g.reserve now).1.1 = true
  · by_cases hw : s ≤ now ∧ now ≤ s + d
    · simp [ha, hw]
    · simp [ha, hw]
  · simp [ha]

theorem admittedWithin_room (h : g.Tuned) {s d low : ℤ} (hl : low ≤ g.tat) (calls : List ℤ)
    (hn : 0 < g.admittedWithin s d calls) :
    low + (g.admittedWithin s d calls - 1) * g.emission ≤ s + d + g.tolerance := by
  induction calls generalizing g low with
  | nil => simp [admittedWithin, admitted] at hn
  | cons now calls ih =>
    have he := h.emission_pos
    have htat := reserve_tat h now
    rw [admittedWithin_cons] at hn ⊢
    by_cases hw : (g.reserve now).1.1 = true ∧ s ≤ now ∧ now ≤ s + d
    · have hadm := (reserve_admits h now).mp hw.1
      rw [if_pos hw.1] at htat
      rw [if_pos hw]
      rcases Nat.eq_zero_or_pos ((g.reserve now).2.admittedWithin s d calls) with hz | hz
      · simp only [hz, Nat.zero_add, Nat.cast_one, sub_self, zero_mul, add_zero]
        omega
      · have hlow : low + g.emission ≤ (g.reserve now).2.tat := by
          rw [htat]
          omega
        have := ih (h.reserve now) hlow hz
        simp only [reserve_emission, reserve_tolerance] at this
        push_cast
        linarith
    · rw [if_neg hw] at hn ⊢
      have hle : low ≤ (g.reserve now).2.tat := by
        rw [htat]
        split_ifs <;> omega
      simpa using ih (h.reserve now) hle hn

theorem admittedWithin_spacing (h : g.Tuned) {s d : ℤ} (calls : List ℤ)
    (hn : 0 < g.admittedWithin s d calls) :
    (g.admittedWithin s d calls - 1) * g.emission ≤ d + g.tolerance := by
  induction calls generalizing g with
  | nil => simp [admittedWithin, admitted] at hn
  | cons now calls ih =>
    have he := h.emission_pos
    have ht := h.tolerance_nonneg
    rw [admittedWithin_cons] at hn ⊢
    by_cases hw : (g.reserve now).1.1 = true ∧ s ≤ now ∧ now ≤ s + d
    · rw [if_pos hw]
      rcases Nat.eq_zero_or_pos ((g.reserve now).2.admittedWithin s d calls) with hz | hz
      · simp only [hz, Nat.zero_add, Nat.cast_one, sub_self, zero_mul]
        omega
      · have hle : s + g.emission ≤ (g.reserve now).2.tat := by
          rw [reserve_tat h now, if_pos hw.1]
          omega
        have := admittedWithin_room (h.reserve now) hle calls hz
        simp only [reserve_emission, reserve_tolerance] at this
        push_cast
        linarith
    · rw [if_neg hw] at hn ⊢
      simpa using ih (h.reserve now) hn

theorem admittedWithin_le (h : g.Tuned) (s : ℤ) {d : ℤ} (hd : 0 ≤ d) (calls : List ℤ) :
    (g.admittedWithin s d calls : ℤ) ≤ g.burst + d / g.emission := by
  have hb := h.burst_pos
  have hq : 0 ≤ d / g.emission := Int.ediv_nonneg hd h.emission_pos.le
  rcases Nat.eq_zero_or_pos (g.admittedWithin s d calls) with hz | hz
  · omega
  · have hs := admittedWithin_spacing h calls hz
    rw [h.tolerance_eq] at hs
    have hm : ((g.admittedWithin s d calls : ℤ) - g.burst) * g.emission ≤ d := by linarith
    have := Int.le_ediv_of_mul_le h.emission_pos hm
    omega

theorem after_tat_le (h : g.Tuned) (calls : List ℤ) :
    (g.after calls).tat = g.tat ∨
      ∃ t ∈ calls, (g.after calls).tat ≤ t + g.tolerance + g.emission := by
  induction calls generalizing g with
  | nil => exact Or.inl rfl
  | cons now calls ih =>
    have ht := h.tolerance_nonneg
    change ((g.reserve now).2.after calls).tat = g.tat ∨
      ∃ t ∈ now :: calls, ((g.reserve now).2.after calls).tat ≤ t + g.tolerance + g.emission
    rcases ih (h.reserve now) with hsame | ⟨t, hmem, hle⟩
    · rw [hsame, reserve_tat h now]
      by_cases ha : (g.reserve now).1.1 = true
      · right
        have hadm := (reserve_admits h now).mp ha
        rw [if_pos ha]
        exact ⟨now, List.mem_cons_self .., by omega⟩
      · left
        rw [if_neg ha]
    · right
      simp only [reserve_emission, reserve_tolerance] at hle
      exact ⟨t, List.mem_cons_of_mem _ hmem, hle⟩

theorem after_config (calls : List ℤ) :
    (g.after calls).tolerance = g.tolerance := by
  induction calls generalizing g with
  | nil => rfl
  | cons now calls ih => exact ih.trans (reserve_tolerance now)

theorem reserve_spaced (h : g.Tuned) (earlier : List ℤ) {now : ℤ}
    (hstart : g.tat - g.tolerance ≤ now) (hsp : ∀ t ∈ earlier, t + g.emission ≤ now) :
    ((g.after earlier).reserve now).1.1 = true := by
  rw [reserve_admits (h.after earlier), after_config]
  rcases after_tat_le h earlier with hsame | ⟨t, hmem, hle⟩
  · rwa [hsame]
  · have := hsp t hmem
    omega

end Tuned

/-- A fresh limiter's arrival time is the zero instant, which is why the second part asks that the
call be no earlier than the tolerance before it. -/
theorem newGCRA_conforms (rps : ℚ) (burst : ℤ) (hb : 1 ≤ burst)
    (he : 0 < (newGCRA rps burst).emission)
    (ho : (newGCRA rps burst).emission * (burst - 1) ≤ Time.maxDuration) (calls : List ℤ) :
    (∀ s d : ℤ, 0 ≤ d →
      ((newGCRA rps burst).admittedWithin s d calls : ℤ) ≤
        burst + d / (newGCRA rps burst).emission) ∧
    (calls.Pairwise (· ≤ ·) → ∀ (earlier : List ℤ) (now : ℤ) (later : List ℤ),
      calls = earlier ++ now :: later →
      -(newGCRA rps burst).tolerance ≤ now →
      (∀ t ∈ earlier, t + (newGCRA rps burst).emission ≤ now) →
      (((newGCRA rps burst).after earlier).reserve now).1.1 = true) := by
  have h := tuned_newGCRA hb he ho
  constructor
  · intro s d hd
    exact admittedWithin_le h s hd calls
  · intro _ earlier now later _ hstart hsp
    apply reserve_spaced h earlier _ hsp
    change 0 - (newGCRA rps burst).tolerance ≤ now
    omega

/-- Ten events a second in bursts of three: calls out of order, and two an interval apart. -/
theorem newGCRA_conforms_ten :
    0 < (newGCRA 10 3).emission ∧
      (newGCRA 10 3).emission * (3 - 1) ≤ Time.maxDuration ∧
      ((newGCRA 10 3).admittedWithin 0 150000000 [0, 100, 50, 70, 150000000] : ℤ) ≤
        3 + 150000000 / (newGCRA 10 3).emission ∧
      (((newGCRA 10 3).after [7]).reserve 100000007).1.1 = true :=
  ⟨by decide +kernel, by decide +kernel,
    (newGCRA_conforms 10 3 (by decide) (by decide +kernel) (by decide +kernel)
      [0, 100, 50, 70, 150000000]).1 0 150000000 (by decide),
    (newGCRA_conforms 10 3 (by decide) (by decide +kernel) (by decide +kernel)
      [7, 100000007]).2 (by decide) [7] 100000007 [] rfl (by decide +kernel) (by decide +kernel)⟩

/-- A fresh limiter refuses a first call made before the zero instant. -/
theorem newGCRA_refuses_before_zero :
    0 < (newGCRA 1 1).emission ∧
      (newGCRA 1 1).emission * (1 - 1) ≤ Time.maxDuration ∧
      ((newGCRA 1 1).reserve (-1)).1.1 = false := by
  decide +kernel

end GcraLimiter
end ReverseProxyLb.Limiter
