import ReverseProxyLb.Balancer.Nesting
import ReverseProxyLb.Balancer.Ejection

/-! Over a base without keys a nesting selects by key as by `Next`, but without the
rejection loop of its slow starts. The two agree exactly where the backend has ramped up. -/
namespace ReverseProxyLb
open Lib World

def Shift (k : ℕ) (w w' : World) : Prop := w'.draws = fun i => w.draws (i + k)

theorem Shift.trans {j k : ℕ} {w w' w'' : World} (h : Shift j w w') (h' : Shift k w' w'') :
    Shift (j + k) w w'' := by
  unfold Shift at *
  rw [h', h]
  funext i
  change w.draws (i + k + j) = w.draws (i + (j + k))
  rw [Nat.add_assoc, Nat.add_comm k j]

theorem frame_shift : Frame fun w w' => ∃ k, Shift k w w' where
  refl _ := ⟨0, rfl⟩
  trans _ _ _ h h' := by
    obtain ⟨j, hj⟩ := h
    obtain ⟨k, hk⟩ := h'
    exact ⟨j + k, hj.trans hk⟩
  incrConn _ _ := ⟨0, rfl⟩
  decrConn _ _ := ⟨0, rfl⟩
  draw _ := ⟨1, rfl⟩
  current _ _ := ⟨0, rfl⟩
  currentWeight _ _ _ := ⟨0, rfl⟩
  ring _ _ := ⟨0, rfl⟩

theorem reinstateNow_draws (addr : ℕ) (od : OutlierConfig) (w : World) :
    (OutlierDetection.reinstateNow addr od w).draws = w.draws := by
  cases addr <;> rfl

theorem framed_shift (n : Nesting) : Framed (fun w w' => ∃ k, Shift k w w') n.balancer :=
  n.framed frame_shift
    (n.respects (fun _ _ => ⟨0, rfl⟩) fun addr od w => ⟨0, reinstateNow_draws addr od w⟩)

def Nesting.Ramped : Nesting → World → Backend → Prop
  | base _, _, _ => True
  | priorityTiers inner, w, b | zoneAware _ _ inner, w, b => inner.Ramped w b
  | slowStart addr window inner, w, b =>
    1 ≤ SlowStart.factor window ((inner.settled (SlowStart.observeNow addr w)).slow addr) b w.now.1 ∧
      inner.Ramped (SlowStart.observeNow addr w) b
  | outlierDetection addr od inner, w, b => inner.Ramped (OutlierDetection.reinstateNow addr od w) b

/-- A selection by key beside one that ramps, both from the state `w`. -/
structure Compared (ramped : Backend → Prop) (settled w : World) (keyed plain : Picked × World) :
    Prop where
  mem : ∀ b, keyed.1 = .backend b → b ∈ settled.getHealthy
  slow : keyed.2.slow = settled.slow
  draws : ∃ j k, Shift j w keyed.2 ∧ Shift k w plain.2 ∧
    (plain = keyed ∧ (∀ b, keyed.1 = .backend b → ramped b) ∨
      j < k ∧ ∃ b, keyed.1 = .backend b ∧ ¬ ramped b)

namespace Compared
variable {ramped : Backend → Prop} {settled w w' : World} {keyed plain : Picked × World}

theorem before (h : Compared ramped settled w' keyed plain) (hd : w'.draws = w.draws) :
    Compared ramped settled w keyed plain := by
  obtain ⟨j, k, hj, hk, hcases⟩ := h.draws
  refine ⟨h.mem, h.slow, j, k, ?_, ?_, hcases⟩
  · rw [Shift, ← hd]
    exact hj
  · rw [Shift, ← hd]
    exact hk

theorem ramp {sel : Selection} (h : Compared ramped settled w keyed (sel w)) (addr : ℕ)
    (window now : ℤ) (hsel : ∀ w, ∃ k, Shift k w (sel w).2) (n : ℕ) (last : Option Backend) :
    Compared (fun b => 1 ≤ SlowStart.factor window (settled.slow addr) b now ∧ ramped b) settled w
      keyed
      (SlowStart.rampedSelect addr window now sel (n + 1) last w) := by
  obtain ⟨j, k, hj, hk, hcases⟩ := h.draws
  refine ⟨h.mem, h.slow, ?_⟩
  rcases hcases with ⟨heq, hall⟩ | ⟨hlt, b, hb, hnot⟩
  · by_cases hfast : ∀ b, keyed.1 = .backend b → 1 ≤ SlowStart.factor window (settled.slow addr) b now
    · have hramped : SlowStart.rampedSelect addr window now sel (n + 1) last w = sel w := by
        apply rampedSelect_of_ramped
        rw [heq, h.slow]
        exact hfast
      rw [hramped]
      exact ⟨j, k, hj, hk, .inl ⟨heq, fun b hb => ⟨hfast b hb, hall b hb⟩⟩⟩
    · push Not at hfast
      obtain ⟨b, hb, hf⟩ := hfast
      rw [← heq] at hj hb
      have hslow : (sel w).2.slow = settled.slow := by
        rw [heq, h.slow]
      obtain ⟨m, hm⟩ := frame_shift.rampedSelect_after_draw hsel addr window now n last hb
        (by rw [hslow]; exact not_le.mpr hf)
      have hdraw : Shift 1 (sel w).2 (sel w).2.draw.2 := rfl
      rw [heq] at hb
      refine ⟨j, j + 1 + m, heq ▸ hj, (hj.trans hdraw).trans hm, .inr ⟨by omega, b, hb, ?_⟩⟩
      exact fun hboth => absurd hboth.1 (not_le.mpr hf)
  · obtain ⟨m, hm⟩ := frame_shift.rampedSelect_after hsel addr window now n last w
    exact ⟨j, k + m, hj, hk.trans hm, .inr ⟨by omega, b, hb, fun hboth => hnot hboth.2⟩⟩

theorem same {r : Picked × World} (hmem : ∀ b, r.1 = .backend b → b ∈ settled.getHealthy)
    (hslow : r.2.slow = settled.slow) (hshift : ∃ k, Shift k w r.2) (hramped : ∀ b, ramped b) :
    Compared ramped settled w r r := by
  obtain ⟨k, hk⟩ := hshift
  exact ⟨hmem, hslow, k, k, hk, hk, .inl ⟨rfl, fun b _ => hramped b⟩⟩

end Compared

theorem mem_getHealthy_reinstateNow {addr : ℕ} {od : OutlierConfig} {w : World} {b : Backend}
    (hb : b ∈ w.getHealthy) : b ∈ (OutlierDetection.reinstateNow addr od w).getHealthy := by
  obtain ⟨hmem, hhealthy⟩ := List.mem_filter.mp hb
  apply List.mem_filter.mpr
  cases addr with
  | zero =>
    refine ⟨hmem, ?_⟩
    change (OutlierDetection.reinstateExpired od w.now.1 w.now.2).healthy b = true
    rw [OutlierDetection.reinstateExpired_healthy]
    simp only [World.now, hhealthy, Bool.true_or]
  | succ m =>
    refine ⟨hmem, ?_⟩
    change (OutlierDetection.reinstateExpired od w.now.1 { w.now.2 with stats := w.nested m }).healthy
      b = true
    rw [OutlierDetection.reinstateExpired_healthy]
    simp only [World.now, hhealthy, Bool.true_or]

theorem reinstateNow_ne_nil {addr : ℕ} {od : OutlierConfig} {w : World} (hne : w.getHealthy ≠ []) :
    (OutlierDetection.reinstateNow addr od w).getHealthy ≠ [] := by
  obtain ⟨b, hb⟩ := List.exists_mem_of_ne_nil _ hne
  exact List.ne_nil_of_mem (mem_getHealthy_reinstateNow hb)

namespace Nesting

structure Compares (n : Nesting) : Prop where
  select : ∀ w key, w.getHealthy ≠ [] →
    Compared (n.Ramped w) (n.settled w) w (n.balancer.select key w) (n.balancer.next w)
  pickFrom : ∀ sp ∈ n.balancer.subsetPicker, ∀ w key candidates, candidates ≠ [] →
    candidates ⊆ w.getHealthy →
    Compared (n.Ramped w) (n.settled w) w (sp.pickFromKey candidates key w) (sp.pickFrom candidates w)
  plain : n.balancer.subsetPicker = none →
    n.balancer.nextForKey = none ∧ ∀ w, n.settled w = w ∧ ∀ b, n.Ramped w b

namespace Compares
variable {n : Nesting} {w : World} {candidates : List Backend}

theorem selectFrom (h : n.Compares) (key : String) (hne : candidates ≠ [])
    (hs : candidates ⊆ w.getHealthy) :
    Compared (n.Ramped w) (n.settled w) w (keyedSelectFrom n.balancer candidates key w)
      (ReverseProxyLb.selectFrom n.balancer candidates w) := by
  obtain ⟨b, hb⟩ := List.exists_mem_of_ne_nil _ hne
  unfold keyedSelectFrom ReverseProxyLb.selectFrom
  rw [if_neg hne, if_neg hne]
  by_cases hsame : sameSet w.getHealthy candidates
  · rw [if_pos hsame, if_pos hsame]
    exact h.select w key (List.ne_nil_of_mem (hs hb))
  · rw [if_neg hsame, if_neg hsame]
    cases hsp : n.balancer.subsetPicker with
    | some sp => exact h.pickFrom sp hsp w key candidates hne hs
    | none =>
      obtain ⟨hkey, hplain⟩ := h.plain hsp
      obtain ⟨hsettled, hramped⟩ := hplain w
      rw [hkey, hsettled]
      apply Compared.same
      · intro b hb
        exact hs (mem_of_settles (statelessPick_contract hne).settles hb)
      · exact frame_slow.statelessPick candidates w
      · exact frame_shift.statelessPick candidates w
      · exact hramped

end Compares

theorem compares_base {alg : Algorithm} (h : alg.nextForKey = none) : (base alg).Compares where
  select w key _ := by
    rw [Balancer.select_of_none (B := (base alg).balancer) h]
    apply Compared.same
    · intro b hb
      exact mem_of_settles (Algorithm.next_selects_always h w).settles hb
    · exact frame_slow.algorithm_next alg w
    · exact frame_shift.algorithm_next alg w
    · intro b
      trivial
  pickFrom _ hsp := by cases hsp
  plain _ := ⟨h, fun _ => ⟨rfl, fun _ => trivial⟩⟩

theorem compares (n : Nesting) (h : n.algorithm.nextForKey = none) : n.Compares := by
  induction n with
  | base alg => exact compares_base h
  | priorityTiers inner ih =>
    constructor
    · intro w key hne
      exact (ih h).selectFrom key (PriorityTiers.eligibleFrom_ne_nil hne)
        (PriorityTiers.eligibleFrom_sublist _).subset
    · intro sp hsp w key candidates hne hs
      cases hsp
      exact (ih h).selectFrom key (PriorityTiers.eligibleFrom_ne_nil hne)
        (List.Subset.trans (PriorityTiers.eligibleFrom_sublist _).subset hs)
    · intro hsp
      cases hsp
  | zoneAware zone prefer inner ih =>
    constructor
    · intro w key hne
      exact (ih h).selectFrom key (ZoneAware.eligibleFrom_ne_nil hne)
        (ZoneAware.eligibleFrom_sublist zone prefer _).subset
    · intro sp hsp w key candidates hne hs
      cases hsp
      exact (ih h).selectFrom key (ZoneAware.eligibleFrom_ne_nil hne)
        (List.Subset.trans (ZoneAware.eligibleFrom_sublist zone prefer _).subset hs)
    · intro hsp
      cases hsp
  | slowStart addr window inner ih =>
    have hshift := framed_shift inner
    constructor
    · intro w key hne
      have hne' : (SlowStart.observeNow addr w).getHealthy ≠ [] := hne
      have hinner := ((ih h).select (SlowStart.observeNow addr w) key hne').ramp addr window w.now.1
          hshift.next 7 none
      rw [← keyedSelectFrom_getHealthy _ _ hne'] at hinner
      exact hinner.before rfl
    · intro sp hsp w key candidates hne hs
      cases hsp
      have hs' : candidates ⊆ (SlowStart.observeNow addr w).getHealthy := hs
      exact (((ih h).selectFrom key hne hs').ramp addr window w.now.1
        (frame_shift.selectFrom hshift candidates) 7 none).before rfl
    · intro hsp
      cases hsp
  | outlierDetection addr od inner ih =>
    constructor
    · intro w key hne
      have hne' :=
        (reinstateNow_ne_nil hne : (OutlierDetection.reinstateNow addr od w).getHealthy ≠ [])
      have hinner := (ih h).select (OutlierDetection.reinstateNow addr od w) key hne'
      rw [← keyedSelectFrom_getHealthy _ _ hne'] at hinner
      exact hinner.before (reinstateNow_draws addr od w)
    · intro sp hsp w key candidates hne hs
      cases hsp
      have hs' : candidates ⊆ (OutlierDetection.reinstateNow addr od w).getHealthy := fun b hb =>
        mem_getHealthy_reinstateNow (hs hb)
      have hinner := (ih h).selectFrom key hne hs'
      exact hinner.before (reinstateNow_draws addr od w)
    · intro hsp
      cases hsp

theorem select_eq_next_of_ramped {n : Nesting} (h : n.algorithm.nextForKey = none) {w : World}
    (hne : w.getHealthy ≠ []) (hall : ∀ b ∈ (n.settled w).getHealthy, n.Ramped w b) (key : String) :
    n.balancer.select key w = n.balancer.next w := by
  have hc := (n.compares h).select w key hne
  obtain ⟨j, k, -, -, ⟨heq, -⟩ | ⟨-, b, hb, hnot⟩⟩ := hc.draws
  · exact heq.symm
  · exact absurd (hall b (hc.mem b hb)) hnot

theorem select_eq_next_iff {n : Nesting} (h : n.algorithm.nextForKey = none) {w : World}
    (hne : w.getHealthy ≠ []) (hinj : Function.Injective w.draws) (key : String) :
    n.balancer.select key w = n.balancer.next w ↔
      ∀ b, (n.balancer.select key w).1 = .backend b → n.Ramped w b := by
  have hc := (n.compares h).select w key hne
  obtain ⟨j, k, hj, hk, hcases⟩ := hc.draws
  constructor
  · intro heq b hb
    rcases hcases with ⟨-, hall⟩ | ⟨hlt, -⟩
    · exact hall b hb
    · rw [heq] at hj
      have hshift : w.draws (0 + j) = w.draws (0 + k) := (congrFun hj 0).symm.trans (congrFun hk 0)
      have := hinj hshift
      omega
  · intro hall
    rcases hcases with ⟨heq, -⟩ | ⟨-, b, hb, hnot⟩
    · exact heq.symm
    · exact absurd (hall b hb) hnot

end Nesting
end ReverseProxyLb
