import Mathlib.Analysis.SpecialFunctions.Exp
import ReverseProxyLb.Balancer.LeastLoaded

/-! `EWMA` selects by an average of the latencies times the connections. To the bounds of an
average it only matters that the last value has weight one when no time has passed. -/
namespace ReverseProxyLb
open Lib

structure EwmaState (K : Type) where
  /-- The average, in nanoseconds. -/
  value : K
  lastSample : ℤ

/-- A call of `ObserveLatency`, with the reading of the clock. -/
structure Sample where
  backend : Backend
  duration : ℤ
  now : ℤ
  deriving DecidableEq

namespace Ewma

def ewmaDecayTau : ℤ := 10 * Time.second

noncomputable def decayWeight (elapsed : ℤ) : ℝ := Real.exp (-elapsed / ewmaDecayTau)

variable {K : Type} [Field K] (decay : ℤ → K)

def entryAfter (now d : ℤ) : Option (EwmaState K) → EwmaState K
  | none => { value := d, lastSample := now }
  | some st =>
    let elapsed := Time.sub now st.lastSample
    let elapsed := if elapsed < 0 then 0 else elapsed
    let w := decay elapsed
    { value := st.value * w + d * (1 - w), lastSample := now }

/-- `ObserveLatency`, on the map `state`. -/
def observeLatency (state : Backend → Option (EwmaState K)) (s : Sample) :
    Backend → Option (EwmaState K) :=
  Function.update state s.backend (some (entryAfter decay s.now s.duration (state s.backend)))

def afterSamples (samples : List Sample) : Backend → Option (EwmaState K) :=
  samples.foldl (observeLatency decay) fun _ => none

variable {decay} {b : Backend} {samples : List Sample}

theorem afterSamples_concat (samples : List Sample) (s : Sample) :
    afterSamples decay (samples ++ [s]) = observeLatency decay (afterSamples decay samples) s := by
  simp [afterSamples]

def samplesOf (b : Backend) (samples : List Sample) : List Sample :=
  samples.filter fun s => s.backend = b

theorem samplesOf_concat (samples : List Sample) (s : Sample) :
    samplesOf b (samples ++ [s]) = samplesOf b samples ++ if s.backend = b then [s] else [] := by
  by_cases h : s.backend = b <;> simp [samplesOf, List.filter_append, h]

theorem afterSamples_entry (decay : ℤ → K) (b : Backend) (samples : List Sample) :
    (afterSamples decay samples b).map EwmaState.lastSample =
      (samplesOf b samples).getLast?.map Sample.now := by
  induction samples using List.reverseRecOn with
  | nil => rfl
  | append_singleton samples s ih =>
    rw [afterSamples_concat, samplesOf_concat, observeLatency]
    by_cases h : s.backend = b
    · subst h
      rw [Function.update_self, if_pos rfl, List.getLast?_concat]
      unfold entryAfter
      split <;> rfl
    · rw [Function.update_of_ne (Ne.symm h), if_neg h, List.append_nil, ih]

theorem afterSamples_isSome (decay : ℤ → K) (b : Backend) (samples : List Sample) :
    (afterSamples decay samples b).isSome ↔ samplesOf b samples ≠ [] := by
  have h := congrArg Option.isSome (afterSamples_entry decay b samples)
  rw [Option.isSome_map, Option.isSome_map] at h
  rw [h, List.getLast?_isSome]

section Bounds
variable {decay : ℤ → ℝ}

theorem entryAfter_mem (hdecay : ∀ t, 0 ≤ t → 0 ≤ decay t ∧ decay t ≤ 1) {lo hi : ℝ} {now d : ℤ}
    {e : Option (EwmaState ℝ)} (he : ∀ st ∈ e, st.value ∈ Set.Icc lo hi)
      (hd : (d : ℝ) ∈ Set.Icc lo hi) :
    (entryAfter decay now d e).value ∈ Set.Icc lo hi := by
  cases e with
  | none => exact hd
  | some st =>
    have hst := he st rfl
    set elapsed :=
      if Time.sub now st.lastSample < 0 then 0 else Time.sub now st.lastSample with helapsed
    have hnonneg : 0 ≤ elapsed := by
      rw [helapsed]
      split_ifs <;> omega
    obtain ⟨h₀, h₁⟩ := hdecay elapsed hnonneg
    have hmean := (convex_Icc lo hi) hst hd h₀ (sub_nonneg.mpr h₁) (add_sub_cancel _ _)
    rw [smul_eq_mul, smul_eq_mul, mul_comm, mul_comm _ (d : ℝ)] at hmean
    exact hmean

theorem afterSamples_mem (hdecay : ∀ t, 0 ≤ t → 0 ≤ decay t ∧ decay t ≤ 1) {lo hi : ℝ}
    (h : ∀ s ∈ samplesOf b samples, (s.duration : ℝ) ∈ Set.Icc lo hi) :
    ∀ st ∈ afterSamples decay samples b, st.value ∈ Set.Icc lo hi := by
  induction samples using List.reverseRecOn with
  | nil => simp [afterSamples]
  | append_singleton samples s ih =>
    rw [samplesOf_concat] at h
    have hold := ih fun s' hs' => h s' (List.mem_append_left _ hs')
    rw [afterSamples_concat, observeLatency]
    by_cases hb : s.backend = b
    · subst hb
      rw [Function.update_self]
      rintro st hst
      cases hst
      exact entryAfter_mem hdecay hold (h s (by simp))
    · rw [Function.update_of_ne (Ne.symm hb)]
      exact hold

theorem entryAfter_of_le
    (hone : decay 0 = 1) {now d : ℤ} {st : EwmaState ℝ} (h : now ≤ st.lastSample) :
    (entryAfter decay now d (some st)).value = st.value := by
  have helapsed : (if Time.sub now st.lastSample < 0 then 0 else Time.sub now st.lastSample) = 0 := by
    simp only [Time.sub, Time.minDuration, Time.maxDuration]
    split_ifs <;> omega
  simp only [entryAfter, helapsed, hone]
  ring

end Bounds

/-- The average of a backend lies between its least and its largest sample, and a sample no later
than the one before it changes nothing. -/
theorem estimate_between_samples (decay : ℤ → ℝ) (hdecay : ∀ t, 0 ≤ t → 0 ≤ decay t ∧ decay t ≤ 1)
    (hone : decay 0 = 1) (b : Backend) (samples : List Sample) (hne : samplesOf b samples ≠ []) :
    (∃ st lo hi, afterSamples decay samples b = some st ∧
      ((samplesOf b samples).map Sample.duration).min? = some lo ∧
      ((samplesOf b samples).map Sample.duration).max? = some hi ∧ lo ≤ st.value ∧ st.value ≤ hi) ∧
    ∀ last d now, (samplesOf b samples).getLast? = some last → now ≤ last.now →
      (afterSamples decay (samples ++ [⟨b, d, now⟩]) b).map EwmaState.value =
        (afterSamples decay samples b).map EwmaState.value := by
  obtain ⟨st, hst⟩ := Option.isSome_iff_exists.mp ((afterSamples_isSome decay b samples).mpr hne)
  have hdurations : (samplesOf b samples).map Sample.duration ≠ [] := by simpa using hne
  constructor
  · obtain ⟨lo, hlo⟩ := Option.isSome_iff_exists.mp (List.isSome_min?_of_ne_nil hdurations)
    obtain ⟨hi, hhi⟩ := Option.isSome_iff_exists.mp (List.isSome_max?_of_ne_nil hdurations)
    obtain ⟨-, hleast⟩ := List.min?_eq_some_iff.mp hlo
    obtain ⟨-, hlargest⟩ := List.max?_eq_some_iff.mp hhi
    have hmem : st.value ∈ Set.Icc (lo : ℝ) hi := by
      apply afterSamples_mem hdecay _ st hst
      intro s hs
      have hd := List.mem_map_of_mem (f := Sample.duration) hs
      exact ⟨by exact_mod_cast hleast _ hd, by exact_mod_cast hlargest _ hd⟩
    exact ⟨st, lo, hi, hst, hlo, hhi, hmem.1, hmem.2⟩
  · intro last d now hlast hle
    have htime := afterSamples_entry decay b samples
    rw [hst, hlast] at htime
    obtain htime : st.lastSample = last.now := Option.some.inj htime
    rw [afterSamples_concat, observeLatency, Function.update_self, hst]
    exact congrArg some (entryAfter_of_le hone (htime ▸ hle))

theorem decayWeight_mem (t : ℤ) (ht : 0 ≤ t) : 0 ≤ decayWeight t ∧ decayWeight t ≤ 1 := by
  have htau : (0 : ℝ) ≤ ewmaDecayTau := by norm_num [ewmaDecayTau, Time.second]
  have hle : -(t : ℝ) / ewmaDecayTau ≤ 0 := by
    apply div_nonpos_of_nonpos_of_nonneg _ htau
    simpa using ht
  exact ⟨(Real.exp_pos _).le, Real.exp_le_one_iff.mpr hle⟩

theorem estimate_between_two_samples :
    samplesOf { addr := 0 } [⟨{ addr := 0 }, 5, 3⟩, ⟨{ addr := 0 }, 9, 2⟩] ≠ [] ∧
      ∃ st, afterSamples decayWeight [⟨{ addr := 0 }, 5, 3⟩, ⟨{ addr := 0 }, 9, 2⟩] { addr := 0 } =
        some st ∧
        5 ≤ st.value ∧ st.value ≤ 9 := by
  have hne : samplesOf { addr := 0 } [⟨{ addr := 0 }, 5, 3⟩, ⟨{ addr := 0 }, 9, 2⟩] ≠ [] := by decide
  obtain ⟨⟨st, lo, hi, hst, hlo, hhi, hle, hge⟩, -⟩ :=
    estimate_between_samples decayWeight decayWeight_mem (by simp [decayWeight]) _ _ hne
  obtain rfl : 5 = lo := Option.some.inj ((show _ = some (5 : ℤ) by decide).symm.trans hlo)
  obtain rfl : 9 = hi := Option.some.inj ((show _ = some (9 : ℤ) by decide).symm.trans hhi)
  exact ⟨hne, st, hst, by exact_mod_cast hle, by exact_mod_cast hge⟩

end Ewma

variable {w : World} {a b : Backend}

/-- The part of `EWMA.Next` under the lock. -/
def ewmaLocked (healthy : List Backend) : Selection := fun w =>
  reserveSelected ((scanMin (ewmaScore w) none healthy).map Prod.fst) w

theorem ewma_eq : ewma = withHealthy ewmaLocked := rfl

theorem ewma_least (hne : w.getHealthy ≠ []) :
    ∃ a ∈ w.getHealthy, ewma w = reserve a w ∧ ∀ b ∈ w.getHealthy, ewmaScore w a ≤ ewmaScore w b := by
  obtain ⟨q, hq, hm⟩ := scanMin_none (ewmaScore w) hne
  obtain ⟨hscore, hleast⟩ := scanMin_none_least _ hq
  refine ⟨q.1, hm, ?_, ?_⟩
  · rw [ewma, withHealthy, if_neg hne, hq]
    rfl
  · intro b hb
    rw [← hscore]
    exact hleast b hb

theorem ewma_first {l l' : List Backend} (hl : w.getHealthy = l ++ a :: l')
    (hbefore : ∀ x ∈ l, ewmaScore w a < ewmaScore w x)
    (hafter : ∀ x ∈ l', ewmaScore w a ≤ ewmaScore w x) :
    ewma w = reserve a w := by
  have hne : w.getHealthy ≠ [] := by simp [hl]
  rw [ewma, withHealthy, if_neg hne, hl, scanMin_first _ hbefore hafter]
  rfl

/-- The estimate of `b` is no greater than that of `a`; two backends without samples count
as having equal ones. -/
def NoGreater : Option ℚ → Option ℚ → Prop
  | none, none => True
  | some x, some y => x ≤ y
  | _, _ => False

instance (x y : Option ℚ) : Decidable (NoGreater x y) :=
  match x, y with
  | none, none => inferInstanceAs (Decidable True)
  | some x, some y => inferInstanceAs (Decidable (x ≤ y))
  | none, some _ => inferInstanceAs (Decidable False)
  | some _, none => inferInstanceAs (Decidable False)

/-- A healthy backend has fewer connections than `a` and an estimate no greater. -/
def Overlooked (w : World) (a : Backend) : Prop :=
  ∃ b ∈ w.getHealthy, w.getActiveConns b < w.getActiveConns a ∧ NoGreater (w.latency b) (w.latency a)

instance (w : World) (a : Backend) : Decidable (Overlooked w a) :=
  inferInstanceAs (Decidable (∃ b ∈ w.getHealthy,
    w.getActiveConns b < w.getActiveConns a ∧ NoGreater (w.latency b) (w.latency a)))

theorem not_overlooked {v : ℚ} (hconns : ∀ b ∈ w.getHealthy, 0 ≤ w.getActiveConns b)
    (hpick : (ewma w).1 = .backend a) (ha : w.latency a = some v) (hv : 0 < v) : ¬ Overlooked w a := by
  rintro ⟨b, hb, hfewer, hest⟩
  obtain ⟨a', -, hreserve, hleast⟩ := ewma_least (List.ne_nil_of_mem hb)
  obtain rfl : a' = a := by
    rw [hreserve] at hpick
    exact Picked.backend.inj hpick
  rw [ha] at hest
  cases hlat : w.latency b with
  | none =>
    rw [hlat] at hest
    exact hest
  | some u =>
    rw [hlat] at hest
    have hle : u ≤ v := hest
    have hscore := hleast b hb
    simp only [ewmaScore, ha, hlat] at hscore
    have hb₀ : (0 : ℚ) ≤ w.getActiveConns b := by exact_mod_cast hconns b hb
    have hlt : (w.getActiveConns b : ℚ) < w.getActiveConns a' := by exact_mod_cast hfewer
    have hup : u * (w.getActiveConns b + 1) ≤ v * (w.getActiveConns b + 1) := by gcongr
    have hdown : v * (w.getActiveConns b + 1) < v * (w.getActiveConns a' + 1) := by gcongr
    linarith

theorem ewmaScore_nonneg (hconns : 0 ≤ w.getActiveConns b) (hest : ∀ v ∈ w.latency b, 0 < v) :
    0 ≤ ewmaScore w b ∧ (w.latency b ≠ none → 0 < ewmaScore w b) := by
  have hconns' : (0 : ℚ) ≤ w.getActiveConns b := by exact_mod_cast hconns
  rw [ewmaScore]
  cases hlat : w.latency b with
  | none => simp
  | some v =>
    have hv : 0 < v := hest v hlat
    have hpos : 0 < v * (w.getActiveConns b + 1) := by positivity
    exact ⟨hpos.le, fun _ => hpos⟩

theorem ewma_unsampled {l l' : List Backend} (hl : w.getHealthy = l ++ a :: l')
    (ha : w.latency a = none) (hsampled : ∀ x ∈ l, w.latency x ≠ none)
    (hconns : ∀ b ∈ w.getHealthy, 0 ≤ w.getActiveConns b)
    (hest : ∀ b ∈ w.getHealthy, ∀ v ∈ w.latency b, 0 < v) : ewma w = reserve a w := by
  have hzero : ewmaScore w a = 0 := by rw [ewmaScore, ha]
  have hin : ∀ x, x ∈ l ∨ x ∈ l' → x ∈ w.getHealthy := by
    intro x hx
    rw [hl]
    rcases hx with hx | hx <;> simp [hx]
  apply ewma_first hl
  · intro x hx
    have hxH := hin x (.inl hx)
    rw [hzero]
    exact (ewmaScore_nonneg (hconns x hxH) (hest x hxH)).2 (hsampled x hx)
  · intro x hx
    have hxH := hin x (.inr hx)
    rw [hzero]
    exact (ewmaScore_nonneg (hconns x hxH) (hest x hxH)).1

theorem ewma_sameFleet (w : World) : SameFleet w (ewma w).2 ∧ (ewma w).2.latency = w.latency := by
  by_cases hne : w.getHealthy = []
  · rw [ewma, withHealthy, if_pos hne]
    exact ⟨.refl w, rfl⟩
  · obtain ⟨a, -, hreserve, -⟩ := ewma_least hne
    rw [hreserve]
    exact ⟨⟨rfl, rfl, rfl⟩, rfl⟩

theorem ewma_never_sampled {l : List Backend} (hl : w.getHealthy = a :: l)
    (hnone : ∀ b ∈ w.getHealthy, w.latency b = none) : ewma w = reserve a w := by
  have hscore : ∀ b ∈ w.getHealthy, ewmaScore w b = 0 := by
    intro b hb
    rw [ewmaScore, hnone b hb]
  apply ewma_first (l := []) hl
  · simp
  · intro x hx
    rw [hscore a (by simp [hl]), hscore x (by simp [hl, hx])]

theorem ewma_series_first {l : List Backend} (hl : w.getHealthy = a :: l)
    (hnone : ∀ b ∈ w.getHealthy, w.latency b = none) (k : ℕ) :
    let t := Series.run ewma { world := w } (List.replicate k .next)
    SameFleet w t.world ∧ t.world.latency = w.latency ∧ t.picks = List.replicate k (.backend a) := by
  induction k with
  | zero => exact ⟨.refl w, rfl, rfl⟩
  | succ k ih =>
    intro t
    obtain ⟨hsame, hlat, hpicks⟩ := ih
    set s := Series.run ewma { world := w } (List.replicate k .next) with hs
    have ht : t = s.step ewma .next := by
      rw [hs, ← Series.run_concat, ← List.replicate_succ']
    have hpick : ewma s.world = reserve a s.world := by
      apply ewma_never_sampled (hsame.getHealthy.trans hl)
      rw [hsame.getHealthy, hlat]
      exact hnone
    rw [ht]
    simp only [Series.step, hpick]
    refine ⟨hsame.trans ⟨rfl, rfl, rfl⟩, hlat, ?_⟩
    rw [hpicks, List.replicate_succ']
    rfl

/-- A returned backend with a positive estimate has not been preferred to a less busy one with an
estimate as good. But as long as there are no samples every concurrent call returns the first
healthy backend. -/
theorem ewma_herding (w : World) :
    (∀ a v, (ewma w).1 = .backend a → w.latency a = some v → 0 < v →
      (∀ b ∈ w.getHealthy, 0 ≤ w.getActiveConns b) → ¬ Overlooked w a) ∧
    (∀ l a l', w.getHealthy = l ++ a :: l' → w.latency a = none → (∀ x ∈ l, w.latency x ≠ none) →
      (∀ b ∈ w.getHealthy, 0 ≤ w.getActiveConns b ∧ ∀ v ∈ w.latency b, 0 < v) →
      (ewma w).1 = .backend a) ∧
    ∀ a l ms t, w.getHealthy = a :: l → (∀ b ∈ w.getHealthy, w.latency b = none) →
      exec (Crowd.step (lockedRules ewmaLocked)) ⟨{ world := w }, []⟩ ms = some t →
      ∀ r ∈ t.shared.picks, r = .backend a := by
  refine ⟨?_, ?_, ?_⟩
  · intro a v hpick ha hv hconns
    exact not_overlooked hconns hpick ha hv
  · intro l a l' hl ha hsampled hall
    rw [ewma_unsampled hl ha hsampled (fun b hb => (hall b hb).1) fun b hb => (hall b hb).2]
    rfl
  · intro a l ms t hl hnone hr
    have hne : w.getHealthy ≠ [] := by simp [hl]
    have hkeep : ∀ w', SameFleet w w' → SameFleet w' (withHealthy ewmaLocked w').2 :=
      fun w' _ => (ewma_sameFleet w').1
    obtain ⟨k, hk⟩ := concurrent_is_series hne hkeep hr
    obtain ⟨-, -, hpicks⟩ := ewma_series_first hl hnone k
    rw [hk, ← ewma_eq, hpicks]
    exact fun r hr => List.eq_of_mem_replicate hr

/-- Two backends without samples: both calls return the first, which the second then has
fewer connections than. -/
theorem ewma_herds_unsampled :
    let w := (ewma twins).2
    (∀ b ∈ twins.getHealthy, twins.latency b = none ∧ twins.activeConns b = 0) ∧
      (ewma twins).1 = .backend twinA ∧ (ewma w).1 = .backend twinA ∧
      w.getActiveConns twinB < w.getActiveConns twinA ∧ Overlooked w twinA ∧
      (Series.run ewma { world := twins } [.next, .next]).served twinA = 2 := by
  decide +kernel

/-- One sample each, one for the first alone, and none; in the last case five calls at once all
return the first backend. -/
theorem ewma_herding_twins :
    ¬ Overlooked { twins with latency := fun _ => some 1 } twinA ∧
      (ewma { twins with latency := fun b => if b = twinA then some 1 else none }).1 = .backend twinB ∧
      ∃ t, exec (Crowd.step (lockedRules ewmaLocked)) ⟨{ world := twins }, []⟩ interleaved = some t ∧
        t.shared.picks.length = 5 ∧ ∀ r ∈ t.shared.picks, r = .backend twinA := by
  refine ⟨?_, ?_, ?_⟩
  · exact (ewma_herding _).1 twinA 1 (by decide +kernel) rfl one_pos (by decide)
  · exact (ewma_herding _).2.1 [twinA] twinB [] (by decide) (by decide) (by decide) (by decide +kernel)
  · have hrun : (exec (Crowd.step (lockedRules ewmaLocked)) ⟨{ world := twins }, []⟩ interleaved).map
        (fun t => t.shared.picks.length) = some 5 := by decide +kernel
    obtain ⟨t, ht, hlen⟩ := Option.map_eq_some_iff.mp hrun
    exact ⟨t, ht, hlen,
      (ewma_herding twins).2.2 twinA [twinB] interleaved t (by decide) (by decide) ht⟩

end ReverseProxyLb
