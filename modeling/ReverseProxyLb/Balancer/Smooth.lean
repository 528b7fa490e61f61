import ReverseProxyLb.Balancer.Series
import ReverseProxyLb.Lib.Apportion

/-! A call of `SWRR.Next` is one round of apportioning by credit, with the map `current` as
the credits. -/
namespace ReverseProxyLb
open Lib Apportion

variable {w : World} {l : List Backend} {s : SmoothScan}

theorem smoothScan_total (w : World) (l : List Backend) (s : SmoothScan) :
    (l.foldl (smoothRound w) s).total = s.total + (l.map (effectiveWeight w)).sum := by
  induction l generalizing s with
  | nil => simp
  | cons a l ih =>
    rw [List.foldl_cons, ih]
    simp [smoothRound]
    omega

theorem smoothScan_current (hl : l.Nodup) (b : Backend) :
    (l.foldl (smoothRound w) s).current b = s.current b + if b ∈ l then effectiveWeight w b
      else 0 := by
  induction l generalizing s with
  | nil => simp
  | cons a l ih =>
    obtain ⟨ha, hl⟩ := List.nodup_cons.mp hl
    rw [List.foldl_cons, ih hl]
    by_cases hb : b = a
    · subst hb
      simp [smoothRound, ha]
    · simp [smoothRound, hb]

theorem smoothRound_most (w : World) (s : SmoothScan) (a : Backend) :
    ∃ x, (smoothRound w s a).best = some x ∧ (x = a ∨ s.best = some x) ∧
      ∀ b, b = a ∨ s.best = some b →
        (smoothRound w s a).current b ≤ (smoothRound w s a).current x := by
  cases hbest : s.best with
  | none =>
    refine ⟨a, by simp [smoothRound, hbest], .inl rfl, ?_⟩
    rintro b (rfl | hb)
    · exact le_rfl
    · cases hb
  | some y =>
    by_cases hlt : (smoothRound w s a).current y < (smoothRound w s a).current a
    · have hx : (smoothRound w s a).best = some a := by
        simp only [smoothRound, hbest] at hlt ⊢
        exact if_pos hlt
      refine ⟨a, hx, .inl rfl, ?_⟩
      rintro b (rfl | hb)
      · exact le_rfl
      · cases hb
        exact hlt.le
    · have hx : (smoothRound w s a).best = some y := by
        simp only [smoothRound, hbest] at hlt ⊢
        exact if_neg hlt
      refine ⟨y, hx, .inr rfl, ?_⟩
      rintro b (rfl | hb)
      · exact not_lt.mp hlt
      · cases hb
        exact le_rfl

theorem smoothScan_most (hl : l.Nodup) (hs : ∀ y, s.best = some y → y ∉ l)
    (hne : l ≠ [] ∨ ∃ y, s.best = some y) :
    ∃ x, (l.foldl (smoothRound w) s).best = some x ∧ (x ∈ l ∨ s.best = some x) ∧
      ∀ b, b ∈ l ∨ s.best = some b →
        (l.foldl (smoothRound w) s).current b ≤ (l.foldl (smoothRound w) s).current x := by
  induction l generalizing s with
  | nil =>
    obtain ⟨y, hy⟩ := hne.resolve_left (by simp)
    refine ⟨y, hy, .inr hy, ?_⟩
    rintro b (hb | hb)
    · cases hb
    · obtain rfl := Option.some.inj (hb.symm.trans hy)
      exact le_rfl
  | cons a l ih =>
    obtain ⟨ha, hl'⟩ := List.nodup_cons.mp hl
    obtain ⟨x, hx, hfrom, hmost⟩ := smoothRound_most w s a
    -- what the first round leaves in hand is not scanned again
    have hout : ∀ b, b = a ∨ s.best = some b → b ∉ l := by
      rintro b (rfl | hb)
      · exact ha
      · exact fun hm => hs b hb (List.mem_cons_of_mem _ hm)
    obtain ⟨z, hz, hzfrom, hzmost⟩ := ih (s := smoothRound w s a) hl'
      (fun y hy => hout y (by rwa [Option.some.inj (hy.symm.trans hx)])) (.inr ⟨x, hx⟩)
    refine ⟨z, hz, ?_, ?_⟩
    · rcases hzfrom with hm | he
      · exact .inl (List.mem_cons_of_mem _ hm)
      · obtain rfl := Option.some.inj (he.symm.trans hx)
        rcases hfrom with rfl | he
        · exact .inl (List.mem_cons_self ..)
        · exact .inr he
    · intro b hb
      by_cases hm : b ∈ l
      · exact hzmost b (.inl hm)
      · have hb' : b = a ∨ s.best = some b := by
          rcases hb with hb | hb
          · exact .inl ((List.mem_cons.mp hb).resolve_right hm)
          · exact .inr hb
        have hbx := hmost b hb'
        have hxz := hzmost x (.inr hx)
        rw [List.foldl_cons, smoothScan_current hl', if_neg hm, add_zero]
        rw [smoothScan_current hl', if_neg (hout x hfrom), add_zero] at hxz
        exact hbx.trans hxz

theorem price_toFinset (hl : l.Nodup) (f : Backend → ℤ) : price l.toFinset f = (l.map f).sum := by
  rw [price, List.sum_toFinset f hl]

theorem swrr_round (hne : w.getHealthy ≠ []) (hl : w.getHealthy.Nodup) :
    ∃ a, (swrr w).1 = .backend a ∧ SameFleet w (swrr w).2 ∧
      Round w.getHealthy.toFinset (effectiveWeight w) w.currentWeight (swrr w).2.currentWeight a := by
  obtain ⟨a, ha, hfrom, hmost⟩ := smoothScan_most (w := w) (s := { current := w.currentWeight }) hl
    (by simp) (.inl hne)
  have ham : a ∈ w.getHealthy := hfrom.resolve_right (by simp)
  have hcall : swrr w = reserve a { w with
      currentWeight := Function.update
        (w.getHealthy.foldl (smoothRound w) { current := w.currentWeight }).current a
        ((w.getHealthy.foldl (smoothRound w) { current := w.currentWeight }).current a -
          (w.getHealthy.foldl (smoothRound w) { current := w.currentWeight }).total)
      weighed := w.getHealthy ∪ w.weighed } := by
    unfold swrr withHealthy
    rw [if_neg hne]
    simp only [ha]
    rfl
  rw [hcall]
  refine ⟨a, rfl, ⟨rfl, rfl, rfl⟩, ?_⟩
  constructor
  · simpa using ham
  · intro b hb
    have hbm : b ∈ w.getHealthy := by simpa using hb
    have := hmost b (.inl hbm)
    rw [smoothScan_current hl, smoothScan_current hl, if_pos hbm, if_pos ham] at this
    exact this
  · intro b hb
    have hbm : b ∈ w.getHealthy := by simpa using hb
    rw [price_toFinset hl]
    by_cases hba : b = a
    · subst hba
      simp [reserve, World.incrConn, smoothScan_current hl, smoothScan_total, hbm]
    · simp [reserve, World.incrConn, smoothScan_current hl, hbm, hba]

theorem swrr_account (hne : w.getHealthy ≠ []) (hl : w.getHealthy.Nodup)
    (hzero : ∀ b ∈ w.getHealthy, w.currentWeight b = 0) (steps : List SeriesStep) :
    let t := Series.run swrr { world := w } steps
    SameFleet w t.world ∧ Account w.getHealthy.toFinset (effectiveWeight w) (Series.calls steps)
      t.served t.world.currentWeight := by
  have hpos : ∀ b ∈ w.getHealthy.toFinset, 0 < effectiveWeight w b :=
    fun b _ => effectiveWeight_pos w b
  apply Series.run_rule fun k t => SameFleet w t.world ∧
    Account w.getHealthy.toFinset (effectiveWeight w) k t.served t.world.currentWeight
  · refine ⟨.refl w, Account.start hpos ?_ ?_⟩
    · simpa using hne
    · simpa using hzero
  · rintro k t ⟨hsame, hacc⟩
    have hhealthy := hsame.getHealthy
    have hweight : effectiveWeight t.world = effectiveWeight w := funext hsame.effectiveWeight
    obtain ⟨a, ha, hkept, hround⟩ := swrr_round (w := t.world) (by rwa [hhealthy]) (by rwa [hhealthy])
    rw [hhealthy, hweight] at hround
    exact ⟨hsame.trans hkept, hacc.round hround hpos fun b _ => Series.served_next_of ha b⟩
  · rintro k t b ⟨hsame, hacc⟩
    exact ⟨hsame.trans ⟨rfl, rfl, rfl⟩, hacc⟩

/-- No credit grows beyond the total weight times the number of backends. -/
theorem swrr_current_lt (hne : w.getHealthy ≠ []) (hl : w.getHealthy.Nodup)
    (hzero : ∀ b ∈ w.getHealthy, w.currentWeight b = 0) (steps : List SeriesStep) :
    ∀ b ∈ w.getHealthy, (Series.run swrr { world := w } steps).world.currentWeight b <
      w.getHealthy.length * (w.getHealthy.map (effectiveWeight w)).sum := by
  intro b hb
  obtain ⟨-, hacc⟩ := swrr_account hne hl hzero steps
  have hpos := price_pos (fun b _ => effectiveWeight_pos w b) (List.toFinset_nonempty_iff _ |>.mpr hne)
  have hlt := hacc.credit_lt hpos (List.mem_toFinset.mpr hb)
  rwa [price_toFinset hl, List.toFinset_card_of_nodup hl] at hlt

/-- From zero credits every backend has been picked its exact share up to its credit; so it is
never a whole pick ahead, and after whole cycles it has exactly its share. -/
theorem swrr_exact_and_smooth (w : World) (hne : w.getHealthy ≠ []) (hl : w.getHealthy.Nodup)
    (hzero : ∀ b ∈ w.getHealthy, w.currentWeight b = 0) (steps : List SeriesStep) :
    let t := Series.run swrr { world := w } steps
    let k := Series.calls steps
    let W := (w.getHealthy.map (effectiveWeight w)).sum
    (w.getHealthy.map t.world.currentWeight).sum = 0 ∧
      (∀ b ∈ w.getHealthy,
        (t.served b : ℤ) * W = k * effectiveWeight w b - t.world.currentWeight b ∧
          -W < t.world.currentWeight b ∧
          (t.served b : ℚ) < k * effectiveWeight w b / W + 1) ∧
      ∀ m : ℕ, (k : ℤ) = m * W → ∀ b ∈ w.getHealthy,
        (t.served b : ℤ) = m * effectiveWeight w b ∧ t.world.currentWeight b = 0 := by
  intro t k W
  obtain ⟨-, hacc⟩ := swrr_account hne hl hzero steps
  have hW : price w.getHealthy.toFinset (effectiveWeight w) = W := price_toFinset hl _
  have hpos : 0 < price w.getHealthy.toFinset (effectiveWeight w) :=
    price_pos (fun b _ => effectiveWeight_pos w b) (List.toFinset_nonempty_iff _ |>.mpr hne)
  refine ⟨?_, ?_, ?_⟩
  · rw [← List.sum_toFinset _ hl]
    exact hacc.balanced
  · intro b hb
    have hmem := List.mem_toFinset.mpr hb
    rw [← hW]
    exact ⟨hacc.settled b hmem, hacc.bounded b hmem, hacc.served_lt hpos hmem⟩
  · intro m hm b hb
    rw [← hW] at hm
    exact hacc.cycle hpos hm (List.mem_toFinset.mpr hb)

def skewed : World where
  backends := [{ addr := 0 }, { addr := 1 }, { addr := 2 }]
  weight := fun b => if b.addr = 0 then 5 else 1

theorem swrr_exact_and_smooth_skewed :
    skewed.getHealthy ≠ [] ∧ skewed.getHealthy.Nodup ∧
      (∀ b ∈ skewed.getHealthy, skewed.currentWeight b = 0) ∧
      (Series.run swrr { world := skewed } (List.replicate 7 .next)).served { addr := 0 } = 5 := by
  have hne : skewed.getHealthy ≠ [] := by decide
  have hl : skewed.getHealthy.Nodup := by decide
  have hzero : ∀ b ∈ skewed.getHealthy, skewed.currentWeight b = 0 := fun _ _ => rfl
  obtain ⟨-, -, hcycle⟩ := swrr_exact_and_smooth skewed hne hl hzero (List.replicate 7 .next)
  obtain ⟨hserved, -⟩ := hcycle 1 (by decide) { addr := 0 } (by decide)
  have hweight : effectiveWeight skewed { addr := 0 } = 5 := by decide
  rw [hweight] at hserved
  exact ⟨hne, hl, hzero, by exact_mod_cast hserved⟩

theorem swrr_current_lt_skewed :
    ({ addr := 0 } : Backend) ∈ skewed.getHealthy ∧
      (Series.run swrr { world := skewed } (List.replicate 7 .next)).world.currentWeight
        { addr := 0 } < 21 := by
  have hmem : ({ addr := 0 } : Backend) ∈ skewed.getHealthy := by decide
  have hne : skewed.getHealthy ≠ [] := List.ne_nil_of_mem hmem
  exact ⟨hmem, swrr_current_lt hne (by decide) (fun _ _ => rfl) (List.replicate 7 .next) _ hmem⟩

end ReverseProxyLb
