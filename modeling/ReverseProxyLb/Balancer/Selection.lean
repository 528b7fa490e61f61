import ReverseProxyLb.Balancer.Contract

/-! Every wrapper turns a balancer that selects with a filter into one that selects with its
own filter applied first, so a nesting selects with all its filters. -/
namespace ReverseProxyLb
open Lib World

/-- The base algorithm, and with it the ring, is asked only if the candidates that
are left are the whole healthy set. -/
def RingReady (left : List Backend) (w : World) : Prop := left = w.getHealthy → w.RingUpToDate

theorem RingReady.kept {left : List Backend} {w w' : World} (h : RingReady left w) (hk : Kept w w') :
    RingReady left w' := fun he => hk.ring (h (he.trans hk.getHealthy))

structure Selects (B : Balancer) (filter : List Backend → List Backend) : Prop where
  next : ∀ w, RingReady (filter w.getHealthy) w → Contract (filter w.getHealthy) w (B.next w)
  nextForKey : ∀ f ∈ B.nextForKey, ∀ key w, RingReady (filter w.getHealthy) w →
    Contract (filter w.getHealthy) w (f key w)
  pickFrom : ∀ sp ∈ B.subsetPicker, ∀ candidates w, RingReady (filter candidates) w →
    candidates.Sublist w.getHealthy → Contract (filter candidates) w (sp.pickFrom candidates w)
  pickFromKey : ∀ sp ∈ B.subsetPicker, ∀ candidates key w, RingReady (filter candidates) w →
    candidates.Sublist w.getHealthy → Contract (filter candidates) w (sp.pickFromKey candidates key w)
  plain : B.subsetPicker = none → filter = id

variable {inner : Balancer} {filter : List Backend → List Backend} {w : World}
  {candidates : List Backend}

theorem selects_base (alg : Algorithm) :
    Selects { next := alg.next, nextForKey := alg.nextForKey } id where
  next w hw := alg.next_selects w (hw rfl)
  nextForKey f hf key w hw := alg.nextForKey_selects key f hf w (hw rfl)
  pickFrom _ h := nomatch h
  pickFromKey _ h := nomatch h
  plain _ := rfl

theorem statelessPick_contract (h : candidates ≠ []) :
    Contract candidates w (statelessPick candidates w) := by
  obtain ⟨best, rest, rfl⟩ := List.exists_cons_of_ne_nil h
  obtain ⟨q, hq, hm⟩ := scanMin_some w.getActiveConns (best, w.getActiveConns best) rest
  exact contract_reserveSelected ⟨q.1, List.mem_cons.mpr hm, by rw [hq]; rfl⟩

theorem hashPick_contract (key : String) : Contract candidates w (hashPick candidates key w) := by
  unfold hashPick
  split_ifs
  · exact contract_error _
  · exact contract_pickIndex _ fun _ h => h

theorem eq_of_sameSet {healthy : List Backend} (hs : candidates.Sublist healthy)
    (h : sameSet healthy candidates) : candidates = healthy := by
  simp only [sameSet, Bool.and_eq_true, beq_iff_eq] at h
  exact hs.eq_of_length h.1.symm

theorem selectFrom_contract (hi : Selects inner filter) (hw : RingReady (filter candidates) w)
    (hs : candidates.Sublist w.getHealthy) :
    Contract (filter candidates) w (selectFrom inner candidates w) := by
  unfold selectFrom
  split_ifs with hn hsame
  · exact contract_error _
  · rw [eq_of_sameSet hs hsame] at hw ⊢
    exact hi.next w hw
  · split
    · next sp hsp => exact hi.pickFrom sp hsp candidates w hw hs
    · next hsp =>
      rw [hi.plain hsp]
      exact statelessPick_contract hn

theorem keyedSelectFrom_contract (hi : Selects inner filter) (hw : RingReady (filter candidates) w)
    (hs : candidates.Sublist w.getHealthy) (key : String) :
    Contract (filter candidates) w (keyedSelectFrom inner candidates key w) := by
  unfold keyedSelectFrom
  split_ifs with hn hsame
  · exact contract_error _
  · rw [eq_of_sameSet hs hsame] at hw ⊢
    split
    · next f hf => exact hi.nextForKey f hf key w hw
    · exact hi.next w hw
  · split
    · next sp hsp => exact hi.pickFromKey sp hsp candidates key w hw hs
    · next hsp _ =>
      rw [hi.plain hsp]
      exact hashPick_contract key
    · next hsp _ =>
      rw [hi.plain hsp]
      exact statelessPick_contract hn

theorem selects_narrowing (hi : Selects inner filter) {eligibleFrom : List Backend → List Backend}
    (he : ∀ pool, (eligibleFrom pool).Sublist pool) :
    Selects (narrowing inner eligibleFrom) (filter ∘ eligibleFrom) where
  next _ hw := selectFrom_contract hi hw (he _)
  nextForKey f hf key _ hw := by
    cases hf
    exact keyedSelectFrom_contract hi hw (he _) key
  pickFrom sp hsp _ _ hw hs := by
    cases hsp
    exact selectFrom_contract hi hw ((he _).trans hs)
  pickFromKey sp hsp _ key _ hw hs := by
    cases hsp
    exact keyedSelectFrom_contract hi hw ((he _).trans hs) key
  plain h := nomatch h

theorem PriorityTiers.eligibleFrom_sublist (pool : List Backend) :
    (PriorityTiers.eligibleFrom pool).Sublist pool := by
  cases pool with
  | nil => exact List.Sublist.refl _
  | cons => exact List.filter_sublist

theorem ZoneAware.eligibleFrom_sublist (zone : String) (prefer : Bool) (pool : List Backend) :
    (ZoneAware.eligibleFrom zone prefer pool).Sublist pool := by
  unfold ZoneAware.eligibleFrom
  dsimp only
  split_ifs
  · exact List.Sublist.refl _
  · exact List.filter_sublist
  · exact List.Sublist.refl _

theorem PriorityTiers.minTier_spec (first : Backend) (pool : List Backend) :
    minTier first pool ≤ first.tier ∧ (∀ b ∈ pool, minTier first pool ≤ b.tier) ∧
      (minTier first pool = first.tier ∨ ∃ b ∈ pool, minTier first pool = b.tier) := by
  unfold minTier
  generalize first.tier = m
  induction pool generalizing m with
  | nil => exact ⟨le_rfl, by simp, .inl rfl⟩
  | cons a pool ih =>
    obtain ⟨hle, hall, hex⟩ := ih (if a.tier < m then a.tier else m)
    have hm : (if a.tier < m then a.tier else m) ≤ m ∧
        (if a.tier < m then a.tier else m) ≤ a.tier := by
      split_ifs <;> omega
    refine ⟨hle.trans hm.1, List.forall_mem_cons.mpr ⟨hle.trans hm.2, hall⟩, ?_⟩
    rcases hex with hex | ⟨b, hb, hex⟩
    · rw [List.foldl_cons, hex]
      split_ifs
      · exact .inr ⟨a, List.mem_cons_self .., rfl⟩
      · exact .inl rfl
    · exact .inr ⟨b, List.mem_cons_of_mem _ hb, hex⟩

theorem PriorityTiers.mem_eligibleFrom {pool : List Backend} {b : Backend} :
    b ∈ PriorityTiers.eligibleFrom pool ↔ b ∈ pool ∧ ∀ b' ∈ pool, b.tier ≤ b'.tier := by
  cases pool with
  | nil => simp [PriorityTiers.eligibleFrom]
  | cons first rest =>
    obtain ⟨-, hall, hex⟩ := minTier_spec first (first :: rest)
    have hmem : ∃ b' ∈ first :: rest, minTier first (first :: rest) = b'.tier :=
      hex.elim (fun h => ⟨first, List.mem_cons_self .., h⟩) id
    obtain ⟨b', hb', he⟩ := hmem
    simp only [PriorityTiers.eligibleFrom, List.mem_filter, beq_iff_eq]
    refine and_congr_right fun hb => ⟨fun h b'' hb'' => h ▸ hall b'' hb'', fun h => ?_⟩
    exact le_antisymm (he ▸ h b' hb') (hall b hb)

theorem PriorityTiers.eligibleFrom_ne_nil {pool : List Backend} (h : pool ≠ []) :
    PriorityTiers.eligibleFrom pool ≠ [] := by
  obtain ⟨first, rest, rfl⟩ := List.exists_cons_of_ne_nil h
  obtain ⟨-, hall, hex⟩ := minTier_spec first (first :: rest)
  obtain ⟨b, hb, he⟩ : ∃ b ∈ first :: rest, minTier first (first :: rest) = b.tier :=
    hex.elim (fun h => ⟨first, List.mem_cons_self .., h⟩) id
  exact List.ne_nil_of_mem (PriorityTiers.mem_eligibleFrom.mpr ⟨hb, fun b' hb' => he ▸ hall b' hb'⟩)

theorem ZoneAware.mem_eligibleFrom
    {zone : String} {prefer : Bool} {pool : List Backend} {b : Backend} :
    b ∈ ZoneAware.eligibleFrom zone prefer pool ↔ b ∈ pool ∧
      (prefer → zone ≠ "" → (∃ b' ∈ pool, b'.zone = zone) → b.zone = zone) := by
  unfold ZoneAware.eligibleFrom
  by_cases hoff : (!prefer || zone == "") = true
  · rw [if_pos hoff]
    cases prefer <;> simp_all
  · rw [if_neg hoff]
    have hon : prefer = true ∧ zone ≠ "" := by simpa using hoff
    dsimp only
    split_ifs with hin
    · obtain ⟨b', hb'⟩ := List.exists_mem_of_ne_nil _ hin
      have hex : ∃ b' ∈ pool, b'.zone = zone := ⟨b', by simpa using hb'⟩
      simp [hon, hex]
    · have hnone : ¬ ∃ b' ∈ pool, b'.zone = zone := by simpa using hin
      simp [hnone]

theorem ZoneAware.eligibleFrom_ne_nil {zone : String} {prefer : Bool} {pool : List Backend}
    (h : pool ≠ []) : ZoneAware.eligibleFrom zone prefer pool ≠ [] := by
  unfold ZoneAware.eligibleFrom
  dsimp only
  split_ifs with h₁ h₂
  · exact h
  · exact h₂
  · exact h

theorem decrConn_of_reserved {conns : Backend → Int32} {b : Backend}
    (h : w.activeConns = Function.update conns b (conns b + 1)) :
    (w.decrConn b).activeConns = conns := by
  simp [decrConn, h]

theorem rampedSelect_contract {E : List Backend} {sel : Selection} (addr : ℕ) (window now : ℤ)
    (hsel : ∀ w', Kept w w' → Contract E w' (sel w')) (n : ℕ) (last : Option Backend)
    (hlast : ∀ b ∈ last, b ∈ E) {w' : World} (hk : Kept w w') :
    Contract E w' (SlowStart.rampedSelect addr window now sel n last w') := by
  induction n generalizing last w' with
  | zero =>
    cases last with
    | none => exact contract_error _
    | some b => exact contract_reserve (hlast b rfl)
  | succ n ih =>
    have hc := hsel w' hk
    unfold SlowStart.rampedSelect
    split
    · next b w₁ hb =>
      rw [hb] at hc
      obtain ⟨hkept, hmem, hconns⟩ := hc
      dsimp only
      split_ifs
      · exact ⟨hkept, hmem, hconns⟩
      · exact ⟨hkept.trans kept_float64, hmem, hconns⟩
      · have hk₂ : Kept w' (w₁.float64.2.decrConn b) :=
          (hkept.trans kept_float64).trans (kept_decrConn b)
        refine (ih (some b) ?_ (hk.trans hk₂)).after hk₂ (decrConn_of_reserved hconns)
        exact fun b' hb' => Option.some.inj hb' ▸ hmem
    · next hr => exact hr ▸ hc

theorem observing_contract {E : List Backend} {f : ℤ → Selection} (addr : ℕ)
    (h : ∀ now w', Kept w w' → Contract E w' (f now w')) :
    Contract E w (SlowStart.observing addr f w) := by
  have hk : Kept w (SlowStart.observeTransitions addr w.now.1 w.now.2) := .of_eq rfl rfl rfl
  exact (h _ _ hk).after hk rfl

theorem selects_slowStart (hi : Selects inner filter) (addr : ℕ) (window : ℤ) :
    Selects (newSlowStart addr inner window) filter where
  next w hw := by
    refine observing_contract addr fun now w₁ hk₁ => rampedSelect_contract addr window now ?_ _ _
      (by simp) (Kept.refl w₁)
    intro w' hk
    have hk' := hk₁.trans hk
    rw [← hk'.getHealthy] at hw ⊢
    exact hi.next w' (hw.kept hk')
  nextForKey f hf key w hw := by
    cases hf
    refine observing_contract addr fun _ w' hk => ?_
    rw [← hk.getHealthy] at hw ⊢
    exact keyedSelectFrom_contract hi (hw.kept hk) (List.Sublist.refl _) key
  pickFrom sp hsp candidates w hw hs := by
    cases hsp
    refine observing_contract addr fun now w₁ hk₁ => rampedSelect_contract addr window now ?_ _ _
      (by simp) (Kept.refl w₁)
    intro w' hk
    have hk' := hk₁.trans hk
    exact selectFrom_contract hi (hw.kept hk') (by rwa [hk'.getHealthy])
  pickFromKey sp hsp candidates key w hw hs := by
    cases hsp
    show Contract _ w (SlowStart.observing addr (fun _ => keyedSelectFrom inner candidates key) w)
    refine observing_contract addr fun _ w' hk => ?_
    exact keyedSelectFrom_contract hi (hw.kept hk) (by rwa [hk.getHealthy]) key
  plain h := nomatch h

theorem Stack.selects (st : Stack) : Selects st.balancer st.eligibleFrom := by
  induction st with
  | base alg => exact selects_base alg
  | priorityTiers inner ih => exact selects_narrowing ih PriorityTiers.eligibleFrom_sublist
  | zoneAware zone prefer inner ih =>
    exact selects_narrowing ih (ZoneAware.eligibleFrom_sublist zone prefer)
  | slowStart addr window inner ih => exact selects_slowStart ih addr window

def Returns (out : Picked × World) : Prop := ∃ b, out.1 = .backend b

theorem returns_statelessPick (h : candidates ≠ []) : Returns (statelessPick candidates w) := by
  obtain ⟨best, rest, rfl⟩ := List.exists_cons_of_ne_nil h
  obtain ⟨q, hq, -⟩ := scanMin_some w.getActiveConns (best, w.getActiveConns best) rest
  exact ⟨q.1, by simp [statelessPick, hq, reserveSelected, reserve]⟩

theorem returns_rampedSelect {sel : Selection} (addr : ℕ) (window now : ℤ)
    (hsel : ∀ w', Kept w w' → Kept w' (sel w').2 ∧ Returns (sel w')) (n : ℕ)
    (last : Option Backend) (hlast : n = 0 → last ≠ none) {w' : World} (hk : Kept w w') :
    Returns (SlowStart.rampedSelect addr window now sel n last w') := by
  induction n generalizing last w' with
  | zero =>
    obtain ⟨b, rfl⟩ := Option.ne_none_iff_exists'.mp (hlast rfl)
    exact ⟨b, rfl⟩
  | succ n ih =>
    obtain ⟨hc, b, hb⟩ := hsel w' hk
    have hout : sel w' = (.backend b, (sel w').2) := Prod.ext hb rfl
    have hk₁ := hk.trans hc
    unfold SlowStart.rampedSelect
    rw [hout]
    dsimp only
    split_ifs
    · exact ⟨b, rfl⟩
    · exact ⟨b, rfl⟩
    · exact ih (some b) (by simp) ((hk₁.trans kept_float64).trans (kept_decrConn b))

theorem sameSet_self (l : List Backend) : sameSet l l := by simp [sameSet]

theorem Stack.eligibleFrom_sublist (st : Stack) (pool : List Backend) :
    (st.eligibleFrom pool).Sublist pool := by
  induction st generalizing pool with
  | base alg => exact List.Sublist.refl _
  | priorityTiers inner ih => exact (ih _).trans (PriorityTiers.eligibleFrom_sublist pool)
  | zoneAware zone prefer inner ih =>
    exact (ih _).trans (ZoneAware.eligibleFrom_sublist zone prefer pool)
  | slowStart addr window inner ih => exact ih pool

theorem Stack.ringReady_of_part (st : Stack) {w : World} {candidates : List Backend}
    (hs : candidates.Sublist w.getHealthy) (hpart : candidates ≠ w.getHealthy) :
    RingReady (st.eligibleFrom candidates) w := fun h =>
  absurd (hs.antisymm (h ▸ st.eligibleFrom_sublist candidates)) hpart

theorem Stack.returns_selectFrom (st : Stack) {w : World} {candidates : List Backend}
    (hs : candidates.Sublist w.getHealthy) (hne : candidates ≠ [])
      (hpart : candidates ≠ w.getHealthy) :
    Returns (selectFrom st.balancer candidates w) := by
  have hsame : ¬ sameSet w.getHealthy candidates := fun h => hpart (eq_of_sameSet hs h)
  induction st generalizing candidates w with
  | base alg =>
    simp only [selectFrom, if_neg hne, if_neg hsame, Stack.balancer]
    exact returns_statelessPick hne
  | priorityTiers inner ih =>
    simp only [selectFrom, if_neg hne, if_neg hsame]
    have hsub := (PriorityTiers.eligibleFrom_sublist candidates).trans hs
    have hlt : PriorityTiers.eligibleFrom candidates ≠ w.getHealthy := fun h =>
      hpart (hs.antisymm (h ▸ PriorityTiers.eligibleFrom_sublist candidates))
    exact ih hsub (PriorityTiers.eligibleFrom_ne_nil hne) hlt fun h => hlt (eq_of_sameSet hsub h)
  | zoneAware zone prefer inner ih =>
    simp only [selectFrom, if_neg hne, if_neg hsame]
    have hsub := (ZoneAware.eligibleFrom_sublist zone prefer candidates).trans hs
    have hlt : ZoneAware.eligibleFrom zone prefer candidates ≠ w.getHealthy := fun h =>
      hpart (hs.antisymm (h ▸ ZoneAware.eligibleFrom_sublist zone prefer candidates))
    exact ih hsub (ZoneAware.eligibleFrom_ne_nil hne) hlt fun h => hlt (eq_of_sameSet hsub h)
  | slowStart addr window inner ih =>
    simp only [selectFrom, if_neg hne, if_neg hsame]
    refine returns_rampedSelect addr window _ (fun w' hk => ?_) _ _ (by simp [SlowStart.attempts])
      (w := w) (.of_eq rfl rfl rfl)
    have hs' : candidates.Sublist w'.getHealthy := by rwa [hk.getHealthy]
    have hpart' : candidates ≠ w'.getHealthy := by rwa [hk.getHealthy]
    have hsame' : ¬ sameSet w'.getHealthy candidates := by rwa [hk.getHealthy]
    exact ⟨(selectFrom_contract inner.selects (inner.ringReady_of_part hs' hpart') hs').kept,
      ih hs' hne hpart' hsame'⟩

theorem Stack.returns_next (st : Stack) {w : World} (hne : w.getHealthy ≠ [])
    (hpart : st.eligibleFrom w.getHealthy ≠ w.getHealthy) : Returns (st.balancer.next w) := by
  induction st generalizing w with
  | base alg => exact absurd rfl hpart
  | priorityTiers inner ih =>
    by_cases he : PriorityTiers.eligibleFrom w.getHealthy = w.getHealthy
    · simp only [Stack.eligibleFrom, he] at hpart
      simp only [Stack.balancer, newPriorityTiers, narrowing, he, selectFrom, if_neg hne,
        sameSet_self, if_true]
      exact ih hne hpart
    · exact inner.returns_selectFrom (PriorityTiers.eligibleFrom_sublist _)
        (PriorityTiers.eligibleFrom_ne_nil hne) he
  | zoneAware zone prefer inner ih =>
    by_cases he : ZoneAware.eligibleFrom zone prefer w.getHealthy = w.getHealthy
    · simp only [Stack.eligibleFrom, he] at hpart
      simp only [Stack.balancer, newZoneAware, narrowing, he, selectFrom, if_neg hne,
        sameSet_self, if_true]
      exact ih hne hpart
    · exact inner.returns_selectFrom (ZoneAware.eligibleFrom_sublist ..)
        (ZoneAware.eligibleFrom_ne_nil hne) he
  | slowStart addr window inner ih =>
    refine returns_rampedSelect addr window _ (fun w' hk => ?_) _ _ (by simp [SlowStart.attempts])
      (w := w) (.of_eq rfl rfl rfl)
    have hpart' : inner.eligibleFrom w'.getHealthy ≠ w'.getHealthy := by rwa [hk.getHealthy]
    exact ⟨(inner.selects.next w' fun h => absurd h hpart').kept, ih (by rwa [hk.getHealthy]) hpart'⟩

namespace Deployment
variable (d : Deployment)

def Selected (d : Deployment) (w : World) (out : Picked × World) : Prop :=
  Settles (d.stack.eligibleFrom (d.reinstated w).getHealthy) w.activeConns out.1 out.2.activeConns

theorem selected_next {w : World}
    (hw : RingReady (d.stack.eligibleFrom (d.reinstated w).getHealthy) (d.reinstated w)) :
    d.Selected w (d.balancer.next w) := by
  obtain ⟨outlier, st⟩ := d
  cases outlier with
  | none => exact (st.selects.next w hw).settles
  | some od =>
    exact (st.selects.next (OutlierDetection.reinstateExpired od w.now.1 w.now.2) hw).settles

theorem selected_nextForKey {w : World}
    (hw : RingReady (d.stack.eligibleFrom (d.reinstated w).getHealthy) (d.reinstated w)) :
    ∀ f ∈ d.balancer.nextForKey, ∀ key, d.Selected w (f key w) := by
  intro f hf key
  obtain ⟨outlier, st⟩ := d
  cases outlier with
  | none => exact (st.selects.nextForKey f hf key w hw).settles
  | some od =>
    cases hf
    have hw' : RingReady
        (st.eligibleFrom (OutlierDetection.reinstateExpired od w.now.1 w.now.2).getHealthy)
      (OutlierDetection.reinstateExpired od w.now.1 w.now.2) := hw
    exact (keyedSelectFrom_contract st.selects hw' (List.Sublist.refl _) key).settles

theorem returns_next {w : World} (hne : (d.reinstated w).getHealthy ≠ [])
    (hpart : d.stack.eligibleFrom (d.reinstated w).getHealthy ≠ (d.reinstated w).getHealthy) :
    Returns (d.balancer.next w) := by
  obtain ⟨outlier, st⟩ := d
  cases outlier with
  | none => exact st.returns_next hne hpart
  | some od =>
    have hpart' : st.eligibleFrom (OutlierDetection.reinstateExpired od w.now.1 w.now.2).getHealthy ≠
      (OutlierDetection.reinstateExpired od w.now.1 w.now.2).getHealthy := hpart
    exact st.returns_next hne hpart'

/-- The selection contract of a deployed nesting, for `Next` and `NextForKey`. -/
theorem selection_contract (w : World) (hring : (d.reinstated w).RingUpToDate) :
    d.Selected w (d.balancer.next w) ∧
    ∀ f ∈ d.balancer.nextForKey, ∀ key, d.Selected w (f key w) :=
  ⟨d.selected_next fun _ => hring, d.selected_nextForKey fun _ => hring⟩

end Deployment

/-- A primary whose ejection has expired is reinstated and chosen over the backup. -/
def ejectedPrimary : World where
  backends := [{ addr := 0 }, { addr := 1, tier := 1 }]
  healthy b := b.addr == 1
  stats := [({ addr := 0 }, { failure := 5, ejected := true })]
  clock _ := 10

def tiersUnderOutlier : Deployment where
  outlier := some { errorRateThreshold := 1 / 2, minRequests := 5, baseEjection := 10
                    maxEjectionPercent := 50 }
  stack := .priorityTiers (.base .roundRobin)

theorem selection_contract_ejectedPrimary :
    (tiersUnderOutlier.balancer.next ejectedPrimary).1 = .backend { addr := 0 } ∧
    tiersUnderOutlier.Selected ejectedPrimary (tiersUnderOutlier.balancer.next ejectedPrimary) :=
  ⟨by decide, (tiersUnderOutlier.selection_contract ejectedPrimary fun _ _ h => nomatch h).1⟩

end ReverseProxyLb
