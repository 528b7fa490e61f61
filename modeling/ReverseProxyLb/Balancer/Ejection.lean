import ReverseProxyLb.Balancer.Wrappers

/-! What the two operations of the outlier detection do to the flag and the entry of one
backend. -/
namespace ReverseProxyLb.OutlierDetection

def isEjected (w : World) (b : Backend) : Bool := w.stats.any fun p => decide (p.1 = b) && p.2.ejected

variable {b x : Backend} {w : World} {st st' : OutlierStat}

theorem isEjected_eq_false : isEjected w b = false ↔ ∀ st, (b, st) ∈ w.stats → st.ejected = false := by
  simp only [isEjected, List.any_eq_false, Bool.and_eq_true, decide_eq_true_eq, not_and,
    Bool.not_eq_true]
  exact ⟨fun h st hst => h (b, st) hst rfl, fun h p hp he => h p.2 (he ▸ hp)⟩

theorem mem_setStat (hx : x ≠ b) : (b, st) ∈ (setStat w x st').stats ↔ (b, st) ∈ w.stats := by
  unfold setStat
  dsimp only
  split_ifs
  · rw [List.mem_map]
    constructor
    · rintro ⟨⟨y, sty⟩, hy, he⟩
      split_ifs at he with hyx
      · cases he
        exact absurd rfl hx
      · exact he ▸ hy
    · intro hb
      exact ⟨(b, st), hb, if_neg (Ne.symm hx)⟩
  · simp [Ne.symm hx]

theorem mem_setStat_self : (b, st) ∈ (setStat w b st').stats ↔ st = st' := by
  unfold setStat
  dsimp only
  split_ifs with hany
  · constructor
    · intro h
      obtain ⟨p, -, he⟩ := List.mem_map.mp h
      split_ifs at he with hp
      · cases he
        rfl
      · exact absurd (congrArg Prod.fst he) hp
    · rintro rfl
      obtain ⟨p, hp, he⟩ := List.any_eq_true.mp hany
      exact List.mem_map.mpr ⟨p, hp, if_pos (by simpa using he)⟩
  · have hno : (b, st) ∉ w.stats := fun h => hany (List.any_eq_true.mpr ⟨_, h, by simp⟩)
    simp [hno]

theorem isEjected_setStat_self : isEjected (setStat w b st) b = st.ejected := by
  cases hst : st.ejected with
  | false => exact isEjected_eq_false.mpr fun st' h => mem_setStat_self.mp h ▸ hst
  | true =>
    rw [← Bool.not_eq_false, isEjected_eq_false]
    intro h
    exact absurd hst (by simp [h st (mem_setStat_self.mpr rfl)])

theorem nodup_setStat (h : (w.stats.map Prod.fst).Nodup) :
    ((setStat w b st).stats.map Prod.fst).Nodup := by
  unfold setStat
  dsimp only
  split_ifs with hany
  · have hkeys : (w.stats.map fun p => if p.1 = b then (b, st) else p).map Prod.fst =
        w.stats.map Prod.fst := by
      rw [List.map_map]
      apply List.map_congr_left
      intro p _
      simp only [Function.comp_apply]
      split_ifs with hp
      · exact hp.symm
      · rfl
    rwa [hkeys]
  · rw [List.map_append, List.map_singleton, List.nodup_append]
    refine ⟨h, List.nodup_singleton b, fun y hy z hz => ?_⟩
    rintro rfl
    obtain ⟨p, hp, rfl⟩ := List.mem_map.mp hy
    exact hany (List.any_eq_true.mpr ⟨p, hp, by simpa using hz⟩)

theorem statFor_ejected (h : isEjected w b = false) : (statFor w b).ejected = false := by
  unfold statFor
  cases hl : w.stats.lookup b with
  | none => rfl
  | some st =>
    obtain ⟨l₁, l₂, hs, -⟩ := List.lookup_eq_some_iff.mp hl
    exact isEjected_eq_false.mp h st (by simp [hs])

theorem observeOutcome_spec (rate : ℤ → ℤ → ℚ) (od : OutlierConfig) (now : ℤ) (b : Backend) (ok : Bool)
    (w : World) :
    (∃ st, st.ejected = (statFor w b).ejected ∧ observeOutcome rate od now b ok w = setStat w b st) ∨
      ∃ st st', st'.ejected = true ∧ observeOutcome rate od now b ok w =
        { setStat (setStat w b st) b st' with healthy := Function.update w.healthy b false } := by
  unfold observeOutcome
  dsimp only
  have hkeep : (if ok = true then { statFor w b with success := (statFor w b).success + 1 }
      else { statFor w b with failure := (statFor w b).failure + 1 } : OutlierStat).ejected =
      (statFor w b).ejected := by
    split_ifs <;> rfl
  generalize (if ok = true then _ else _ : OutlierStat) = st at hkeep
  split_ifs
  any_goals exact .inl ⟨st, hkeep, rfl⟩
  all_goals exact .inr ⟨st, { st with ejected := true, ejectedAt := now }, rfl, rfl⟩

theorem observeOutcome_other (rate : ℤ → ℤ → ℚ) (od : OutlierConfig) (now : ℤ) (ok : Bool) (w : World)
    (hx : x ≠ b) :
    (observeOutcome rate od now x ok w).healthy b = w.healthy b ∧
      ∀ st, (b, st) ∈ (observeOutcome rate od now x ok w).stats ↔ (b, st) ∈ w.stats := by
  rcases observeOutcome_spec rate od now x ok w with ⟨st, -, h⟩ | ⟨st, st', -, h⟩ <;> rw [h]
  · exact ⟨rfl, fun _ => mem_setStat hx⟩
  · exact ⟨Function.update_of_ne (Ne.symm hx) .., fun _ => (mem_setStat hx).trans (mem_setStat hx)⟩

theorem observeOutcome_healthy (rate : ℤ → ℤ → ℚ) (od : OutlierConfig) (now : ℤ) (ok : Bool)
    (h : (observeOutcome rate od now x ok w).healthy b = true) :
    w.healthy b = true ∧
      (isEjected w b = false → isEjected (observeOutcome rate od now x ok w) b = false) := by
  by_cases hx : x = b
  · subst hx
    rcases observeOutcome_spec rate od now x ok w with ⟨st, hst, he⟩ | ⟨st, st', -, he⟩ <;>
      rw [he] at h ⊢
    · exact ⟨h, fun hr => by rw [isEjected_setStat_self, hst, statFor_ejected hr]⟩
    · simp at h
  · obtain ⟨hh, hmem⟩ := observeOutcome_other rate od now ok w hx
    refine ⟨hh.symm.trans h, fun hr => isEjected_eq_false.mpr fun st hst => ?_⟩
    exact isEjected_eq_false.mp hr st ((hmem st).mp hst)

theorem nodup_observeOutcome (rate : ℤ → ℤ → ℚ) (od : OutlierConfig) (now : ℤ) (ok : Bool)
    (h : (w.stats.map Prod.fst).Nodup) :
    ((observeOutcome rate od now b ok w).stats.map Prod.fst).Nodup := by
  rcases observeOutcome_spec rate od now b ok w with ⟨st, -, he⟩ | ⟨st, st', -, he⟩ <;> rw [he]
  · exact nodup_setStat h
  · exact nodup_setStat (nodup_setStat h)

theorem reinstateExpired_healthy (od : OutlierConfig) (now : ℤ) (w : World) (b : Backend) :
    (reinstateExpired od now w).healthy b =
      (w.healthy b || w.stats.any fun p => decide (p.1 = b) && expired od now p.2) := by
  have hfold : ∀ (l : List (Backend × OutlierStat)) (healthy : Backend → Bool),
      (l.foldl (fun healthy p => if expired od now p.2 then Function.update healthy p.1 true
        else healthy)
        healthy) b = (healthy b || l.any fun p => decide (p.1 = b) && expired od now p.2) := by
    intro l
    induction l with
    | nil => simp
    | cons p l ih =>
      intro healthy
      rw [List.foldl_cons, ih, List.any_cons]
      by_cases hb : p.1 = b
      · subst hb
        cases expired od now p.2 <;> simp
      · cases expired od now p.2 <;> simp [hb, Function.update_of_ne (Ne.symm hb)]
  exact hfold w.stats w.healthy

theorem mem_reinstateExpired {od : OutlierConfig} {now : ℤ}
    (hst : (b, st) ∈ (reinstateExpired od now w).stats) (he : st.ejected = true) :
    (b, st) ∈ w.stats ∧ expired od now st = false := by
  obtain ⟨p, hp, heq⟩ := List.mem_map.mp hst
  split_ifs at heq with hexp
  · cases heq
    simp at he
  · subst heq
    exact ⟨hp, by simpa using hexp⟩

theorem isEjected_reinstateExpired (od : OutlierConfig) (now : ℤ)
    (hnodup : (w.stats.map Prod.fst).Nodup)
    (h : isEjected w b = false ∨ ∃ p ∈ w.stats, p.1 = b ∧ expired od now p.2) :
    isEjected (reinstateExpired od now w) b = false := by
  rw [isEjected_eq_false]
  intro st hst
  by_contra he
  obtain ⟨hmem, hexp⟩ := mem_reinstateExpired hst (by simpa using he)
  rcases h with h | ⟨⟨y, sty⟩, hp, rfl, hpe⟩
  · exact he (isEjected_eq_false.mp h st hmem)
  · have heq : (y, st) = (y, sty) := List.inj_on_of_nodup_map hnodup hmem hp rfl
    cases heq
    exact absurd hpe (by simp [hexp])

end ReverseProxyLb.OutlierDetection
