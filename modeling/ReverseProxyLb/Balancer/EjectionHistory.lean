import ReverseProxyLb.Balancer.Ejection
import ReverseProxyLb.Balancer.EjectionCap
import Mathlib.Data.List.DropRight

/-! The counts of an entry are those of all outcomes since the last reinstatement, however
old, so whether a series of failures ejects a backend depends on the outcomes before. -/
namespace ReverseProxyLb
open Lib World OutlierDetection

namespace OutlierDetection
variable {rate : ℤ → ℤ → ℚ} {od : OutlierConfig} {w : World} {b : Backend}

theorem lookup_of_nodup {p : Backend × OutlierStat} (hn : (w.stats.map Prod.fst).Nodup)
    (hp : p ∈ w.stats) :
    statFor w p.1 = p.2 := by
  unfold statFor
  generalize w.stats = l at hn hp
  induction l with
  | nil => cases hp
  | cons q l ih =>
    rw [List.map_cons, List.nodup_cons] at hn
    rw [List.lookup_cons]
    obtain rfl | hp := List.mem_cons.mp hp
    · simp
    · have hne : (p.1 == q.1) = false := by
        apply beq_eq_false_iff_ne.mpr
        intro heq
        exact hn.1 (heq ▸ List.mem_map_of_mem hp)
      rw [hne]
      exact ih hn.2 hp

theorem currentlyEjected_counted (hn : (w.stats.map Prod.fst).Nodup) (b : Backend) (ok : Bool) :
    currentlyEjected (setStat w b (counted ok (statFor w b))) = currentlyEjected w := by
  unfold currentlyEjected setStat
  dsimp only
  by_cases hany : (w.stats.any fun p => p.1 = b) = true
  · rw [if_pos hany, List.countP_map]
    congr 1
    apply List.countP_congr
    intro p hp
    simp only [Function.comp_apply]
    split_ifs with hb
    · subst hb
      rw [(counted_ejected ok _).1, lookup_of_nodup hn hp]
    · rfl
  · have hnew : statFor w b = {} := by
      have hnone : w.stats.lookup b = none := by
        apply List.lookup_eq_none_iff.mpr
        intro p hp
        apply bne_iff_ne.mpr
        rintro rfl
        exact hany (List.any_eq_true.mpr ⟨p, hp, decide_eq_true rfl⟩)
      rw [statFor, hnone]
      rfl
    rw [if_neg hany, List.countP_append, hnew]
    cases ok <;> rfl

theorem marked_observeOutcome_iff (now : ℤ) (ok : Bool) (hn : (w.stats.map Prod.fst).Nodup)
    (hroom : currentlyEjected w < maxEject od w.backends) :
    marked (observeOutcome rate od now b ok w) b = true ↔ marked w b = true ∨
      (od.minRequests ≤ (counted ok (statFor w b)).success + (counted ok (statFor w b)).failure ∧
        od.errorRateThreshold < rate (counted ok (statFor w b)).failure
          ((counted ok (statFor w b)).success + (counted ok (statFor w b)).failure)) := by
  rw [← currentlyEjected_counted hn b ok] at hroom
  have hmark : marked w b = (counted ok (statFor w b)).ejected := (counted_ejected ok _).1.symm
  rw [hmark, marked, observeOutcome_eq]
  generalize counted ok (statFor w b) = st at hroom ⊢
  by_cases hej : st.ejected = true
  · simp [hej, statFor_setStat]
  · by_cases hmin : st.success + st.failure < od.minRequests
    · simp [hej, hmin, statFor_setStat, not_le.mpr hmin]
    · by_cases hrate : rate st.failure (st.success + st.failure) ≤ od.errorRateThreshold
      · rw [if_neg (by simp [hej, hmin]), if_pos hrate, statFor_setStat, if_pos rfl]
        simp only [hej, not_lt.mpr hrate, and_false, or_false]
      · rw [if_neg (by simp [hej, hmin]), if_neg hrate, if_neg (not_le.mpr hroom)]
        change (statFor (setStat (setStat w b st) b { st with ejected := true, ejectedAt := now })
          b).ejected =
          true ↔ _
        rw [statFor_setStat, if_pos rfl]
        exact iff_of_true rfl (.inr ⟨not_lt.mp hmin, not_le.mp hrate⟩)

end OutlierDetection

section History
variable {rate : ℤ → ℤ → ℚ} {inner : Nesting} {od : OutlierConfig} {fleet : List Backend} {w : World}
  {s s' : Watched} {b : Backend} {start : ℤ} {ms : List Watching}

def Watching.history (b : Backend) (ms : List Watching) : List Bool :=
  ms.filterMap fun
    | .observe _ x ok => if x = b then some ok else none
    | .select _ _ => none

theorem Watched.nodup_step (hinner : 0 ∉ inner.detections) (hn : (s.world.stats.map Prod.fst).Nodup)
    {m : Watching} (hs : s.step rate inner od m = some s') : (s'.world.stats.map Prod.fst).Nodup := by
  obtain ⟨-, -, hworld, -⟩ := Watched.step_eq_some hs
  rw [hworld]
  cases m with
  | observe now x ok => exact nodup_observeOutcome rate od now ok hn
  | select clock m =>
    have hstats := congrArg Prod.snd (m.call_fleetAndStats od hinner { s.world with clock := clock })
    change ((m.call inner.balancer od { s.world with clock := clock }).2.stats.map Prod.fst).Nodup
    rw [show (m.call inner.balancer od { s.world with clock := clock }).2.stats = _ from hstats]
    rw [fleetAndStats, reinstateExpired_keys]
    exact hn

def Watched.Recalls (s : Watched) (ms : List Watching) : Prop :=
  ∀ b, s.outcomes b ≤ (Watching.history b ms).length ∧
    s.failures b = ((Watching.history b ms).rtake (s.outcomes b)).count false

theorem Watching.history_concat (b : Backend) (ms : List Watching) (m : Watching) :
    history b (ms ++ [m]) = history b ms ++ history b [m] := List.filterMap_append

theorem Watched.Recalls.step
    (h : s.Recalls ms) {m : Watching} (hs : s.step rate inner od m = some s') :
    s'.Recalls (ms ++ [m]) := by
  intro b
  obtain ⟨hlen, hfail⟩ := h b
  obtain ⟨-, -, -, houtcomes, hfailures, -⟩ := Watched.step_eq_some hs
  rw [houtcomes b, hfailures b, Watching.history_concat]
  cases marked s.world b && !marked s'.world b with
  | true => simp
  | false =>
    cases m with
    | select clock m =>
      simpa [Watching.history, Watching.outcomes, Watching.failures] using ⟨hlen, hfail⟩
    | observe now x ok =>
      by_cases hx : x = b
      · have hone : Watching.history b [.observe now x ok] = [ok] := by simp [Watching.history, hx]
        have houtcome : (Watching.observe now x ok).outcomes b = 1 := if_pos hx
        rw [hone, houtcome]
        simp only [Bool.false_eq_true, if_false, List.rtake_concat_succ, List.count_append, ← hfail]
        constructor
        · simpa using hlen
        · cases ok <;> simp [Watching.failures, hx]
      · have hnone : Watching.history b [.observe now x ok] = [] := by simp [Watching.history, hx]
        rw [hnone]
        simpa [Watching.outcomes, Watching.failures, hx] using ⟨hlen, hfail⟩

theorem Watched.recalls_run (hinner : 0 ∉ inner.detections) (hw : w.stats = [])
    (hrun : exec (Watched.step rate inner od) { now := start, world := w } ms = some s) :
    s.Recalls ms ∧ (s.world.stats.map Prod.fst).Nodup := by
  induction ms using List.reverseRecOn generalizing s with
  | nil =>
    cases hrun
    refine ⟨fun b => ⟨Nat.zero_le _, by simp⟩, ?_⟩
    rw [hw]
    exact List.nodup_nil
  | append_singleton ms m ih =>
    rw [exec_append] at hrun
    obtain ⟨t, ht, hlast⟩ := Option.bind_eq_some_iff.mp hrun
    obtain ⟨t', hs, hend⟩ := exec_cons_eq_some hlast
    cases hend
    obtain ⟨hrec, hn⟩ := ih ht
    exact ⟨hrec.step hs, Watched.nodup_step hinner hn hs⟩

theorem rtake_append_replicate (l : List Bool) {k n : ℕ} (h : k ≤ n) :
    (l ++ List.replicate k false).rtake n = l.rtake (n - k) ++ List.replicate k false := by
  unfold List.rtake
  rw [List.drop_append_of_le_length (by simp; omega)]
  congr 2
  simp
  omega

theorem Watched.observe_counts (hs : s.step rate inner od (.observe start b false) = some s') :
    s'.outcomes b = s.outcomes b + 1 ∧ s'.failures b = s.failures b + 1 := by
  obtain ⟨-, -, hworld, houtcomes, hfailures, -⟩ := Watched.step_eq_some hs
  have hover : (marked s.world b && !marked s'.world b) = false := by
    cases hb : marked s.world b with
    | false => rfl
    | true =>
      rw [hworld]
      change (true && !marked (observeOutcome rate od start b false s.world) b) = false
      rw [((marked_observeOutcome rate od start b false s.world b).1 hb).1]
      rfl
  rw [houtcomes, hfailures, hover]
  simp [Watching.outcomes, Watching.failures]

/-- A failure that ends a series of `minRequests` of them, while there is room, leaves the backend
ejected exactly if it was already, or the series outweighs the outcomes between the last
reinstatement and the series. -/
theorem recent_failures_eject_iff (hbase : od.baseEjection ≤ Time.maxDuration)
    (hinner : 0 ∉ inner.detections) (hmin : 1 ≤ od.minRequests) (hw : w.stats = [])
    (hrun : exec (Watched.step errRate inner od) { now := start, world := w } ms = some s) {now : ℤ}
    (hs : s.step errRate inner od (.observe now b false) = some s')
    (hroom : currentlyEjected s.world < maxEject od w.backends) {before : List Bool}
    (hrecent : Watching.history b (ms ++ [.observe now b false]) =
      before ++ List.replicate od.minRequests.toNat false) :
    marked s'.world b = true ↔ marked s.world b = true ∨
      (od.minRequests ≤ s'.outcomes b ∧ od.errorRateThreshold <
        errRate (od.minRequests + (before.rtake (s'.outcomes b - od.minRequests.toNat)).count false)
          (s'.outcomes b)) := by
  obtain ⟨hrecalls, hn⟩ := Watched.recalls_run hinner hw hrun
  have hsound : Watched.Sound od w.backends s :=
    exec_keeps (fun _ _ _ h hs => h.step hbase hinner hs) hrun (Watched.Sound.start hw start)
  obtain ⟨houtcomes, hfailures⟩ := Watched.observe_counts hs
  have hfail' := (hrecalls.step hs b).2
  rw [hrecent] at hfail'
  obtain ⟨-, -, hworld, -⟩ := Watched.step_eq_some hs
  have hsum := (counted_sum false (statFor s.world b)).1
  have hfail := (counted_sum false (statFor s.world b)).2
  rw [hsound.outcomes] at hsum
  rw [hsound.failures] at hfail
  have hworld' : s'.world = observeOutcome errRate od now b false s.world := hworld
  rw [hworld', marked_observeOutcome_iff now false hn (hsound.backends ▸ hroom), hsum, hfail]
  apply or_congr_right
  have hn' : (s.outcomes b : ℤ) + 1 = s'.outcomes b := by
    rw [houtcomes]
    rfl
  have hf' : (s.failures b : ℤ) + (if false = false then 1 else 0) = s'.failures b := by
    rw [hfailures]
    rfl
  rw [hn', hf']
  apply and_congr_right
  intro henough
  have hk : od.minRequests.toNat ≤ s'.outcomes b := by omega
  have hseries : (s'.failures b : ℤ) =
      od.minRequests + (before.rtake (s'.outcomes b - od.minRequests.toNat)).count false := by
    rw [hfail', rtake_append_replicate before hk, List.count_append, List.count_replicate_self,
      Nat.cast_add,
      add_comm]
    congr 1
    exact Int.toNat_of_nonneg (by omega)
  rw [hseries]

/-- One success before two failures does not save the backend. -/
theorem recent_failures_eject_iff_three :
    ∃ s s' : Watched,
      exec (Watched.step errRate (.base .roundRobin) strict) { now := 0, world := watchedThree }
        [.observe 0 { addr := 0 } true, .observe 1 { addr := 0 } false] = some s ∧
      s.step errRate (.base .roundRobin) strict (.observe 2 { addr := 0 } false) = some s' ∧
      marked s'.world { addr := 0 } = true := by
  have hreach :
      (exec (Watched.step errRate (.base .roundRobin) strict) { now := 0, world := watchedThree }
      [.observe 0 { addr := 0 } true, .observe 1 { addr := 0 } false]).any (fun s =>
        s.now == 1 && s.outcomes { addr := 0 } == 2 && currentlyEjected s.world == 0) = true := by
    decide +kernel
  obtain ⟨s, hs, hfacts⟩ := (Option.any_eq_true _ _).mp hreach
  simp only [Bool.and_eq_true, beq_iff_eq] at hfacts
  obtain ⟨⟨hnow, houtcomes⟩, hfree⟩ := hfacts
  obtain ⟨s', hs'⟩ :
      ∃ s', s.step errRate (.base .roundRobin) strict (.observe 2 { addr := 0 } false) = some s' := by
    refine ⟨_, if_neg ?_⟩
    rw [hnow]
    decide
  refine ⟨s, s', hs, hs', ?_⟩
  have hroom : currentlyEjected s.world < maxEject strict watchedThree.backends := by
    rw [hfree]
    exact zero_lt_one.trans_le (le_max_left _ _)
  have hseries : Watching.history
      { addr := 0 } ([.observe 0 { addr := 0 } true, .observe 1 { addr := 0 } false] ++
      [.observe 2 { addr := 0 } false]) = [true] ++ List.replicate strict.minRequests.toNat false := by
    decide
  have hiff := recent_failures_eject_iff (by decide) (by decide) (by decide) rfl hs hs' hroom hseries
  rw [hiff, (Watched.observe_counts hs').1, houtcomes]
  right
  decide +kernel

/-- Two successes before two failures do: half of all outcomes are failures, and that is not
more than the threshold. -/
theorem old_successes_shield_backend :
    ∃ s s' : Watched,
      exec (Watched.step errRate (.base .roundRobin) strict) { now := 0, world := watchedThree }
        [.observe 0 { addr := 0 } true, .observe 1 { addr := 0 } true,
          .observe 2 { addr := 0 } false] = some s ∧
      s.step errRate (.base .roundRobin) strict (.observe 3 { addr := 0 } false) = some s' ∧
      strict.errorRateThreshold < 1 ∧ 1 ≤ strict.minRequests ∧
      Watching.history { addr := 0 } [.observe 0 { addr := 0 } true, .observe 1 { addr := 0 } true,
        .observe 2 { addr := 0 } false, .observe 3 { addr := 0 } false] =
        [true, true] ++ List.replicate strict.minRequests.toNat false ∧
      currentlyEjected s.world < maxEject strict watchedThree.backends ∧
      marked s'.world { addr := 0 } = false := by
  have hreach :
      (exec (Watched.step errRate (.base .roundRobin) strict) { now := 0, world := watchedThree }
      [.observe 0 { addr := 0 } true, .observe 1 { addr := 0 } true,
        .observe 2 { addr := 0 } false]).any (fun s =>
        currentlyEjected s.world == 0 &&
          (s.step errRate (.base .roundRobin) strict (.observe 3 { addr := 0 } false)).any
          fun s' => !marked s'.world { addr := 0 }) = true := by
    decide +kernel
  obtain ⟨s, hs, hfacts⟩ := (Option.any_eq_true _ _).mp hreach
  obtain ⟨hfree, hlast⟩ := Bool.and_eq_true_iff.mp hfacts
  obtain ⟨s', hs', hmark⟩ := (Option.any_eq_true _ _).mp hlast
  refine ⟨s, s', hs, hs', by decide +kernel, by decide, by decide, ?_, by simpa using hmark⟩
  rw [beq_iff_eq.mp hfree]
  exact zero_lt_one.trans_le (le_max_left _ _)

end History

end ReverseProxyLb
