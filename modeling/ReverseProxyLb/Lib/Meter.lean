import ReverseProxyLb.Lib.Replies

/-! A meter admits events at a steady spacing with some tolerance. All it keeps is the theoretical
arrival time of the next event; its debt is how far that time lies ahead of the clock. -/
namespace ReverseProxyLb.Lib

structure Meter (α : Type*) where
  interval : α
  tolerance : α

namespace Meter
variable {α : Type*} [LinearOrder α] {s s' : WithBot α} {t now : α}

def arrival (s : WithBot α) (now : α) : α := s.unbotD now ⊔ now

theorem coe_arrival (s : WithBot α) (now : α) : ((arrival s now : α) : WithBot α) = s ⊔ now := by
  induction s using WithBot.recBotCoe with
  | bot => simp [arrival]
  | coe a => simp [arrival]

@[simp] theorem arrival_coe (a now : α) : arrival (a : WithBot α) now = a ⊔ now := rfl

@[simp] theorem arrival_bot (now : α) : arrival (⊥ : WithBot α) now = now := by simp [arrival]

theorem arrival_of_le (h : s ≤ now) : arrival s now = now := by
  apply WithBot.coe_injective
  rw [coe_arrival, sup_eq_right.mpr h]

def Agree (t : α) (s s' : WithBot α) : Prop := s = s' ∨ s ≤ t ∧ s' ≤ t

theorem Agree.refl (t : α) (s : WithBot α) : Agree t s s := .inl rfl

theorem Agree.mono (h : Agree t s s') (ht : t ≤ now) : Agree now s s' := by
  have hle : (t : WithBot α) ≤ now := WithBot.coe_le_coe.mpr ht
  rcases h with h | ⟨h, h'⟩
  · exact .inl h
  · exact .inr ⟨h.trans hle, h'.trans hle⟩

theorem Agree.arrival (h : Agree t s s') (ht : t ≤ now) : arrival s now = Meter.arrival s' now := by
  rcases h.mono ht with rfl | ⟨h, h'⟩
  · rfl
  · rw [arrival_of_le h, arrival_of_le h']

variable [AddCommGroup α] {m : Meter α}

/-- Whether an event is admitted, or else for how long not, with the arrival time after it. -/
def reserve (m : Meter α) (s : WithBot α) (now : α) : (Bool × α) × WithBot α :=
  if arrival s now - m.tolerance ≤ now then ((true, 0), ((arrival s now + m.interval : α) : WithBot α))
  else ((false, arrival s now - m.tolerance - now), s)

theorem reserve_of_le (h : arrival s now - m.tolerance ≤ now) :
    m.reserve s now = ((true, 0), ((arrival s now + m.interval : α) : WithBot α)) := if_pos h

theorem reserve_of_not_le (h : ¬ arrival s now - m.tolerance ≤ now) :
    m.reserve s now = ((false, arrival s now - m.tolerance - now), s) := if_neg h

theorem reserve_admits : (m.reserve s now).1.1 = true ↔ arrival s now - m.tolerance ≤ now := by
  by_cases h : arrival s now - m.tolerance ≤ now
  · simp [reserve_of_le h, h]
  · simp [reserve_of_not_le h, h]

theorem replies_of_admits_all {ts : List α} (h : ∀ r ∈ replies m.reserve s ts, r.1 = true) :
    replies m.reserve s ts = List.replicate ts.length (true, 0) := by
  induction ts generalizing s with
  | nil => rfl
  | cons t ts ih =>
    rw [replies_cons, List.forall_mem_cons] at h
    rw [replies_cons, ih h.2, reserve_of_le (reserve_admits.mp h.1), List.length_cons,
      List.replicate_succ]

theorem Agree.reserve (h : Agree t s s') (ht : t ≤ now) :
    (m.reserve s now).1 = (m.reserve s' now).1 ∧
      Agree now (m.reserve s now).2 (m.reserve s' now).2 := by
  have harrival := h.arrival ht
  by_cases hle : Meter.arrival s now - m.tolerance ≤ now
  · rw [reserve_of_le hle, reserve_of_le (harrival ▸ hle), harrival]
    exact ⟨rfl, .refl _ _⟩
  · rw [reserve_of_not_le hle, reserve_of_not_le (harrival ▸ hle), harrival]
    exact ⟨rfl, h.mono ht⟩

theorem replies_sup {a : α} {ts : List α} (h : ∀ t ∈ ts, a ≤ t) :
    replies m.reserve (s ⊔ a) ts = replies m.reserve s ts := by
  induction ts generalizing s with
  | nil => rfl
  | cons t ts ih =>
    have harrival : arrival (s ⊔ a) t = arrival s t := by
      apply WithBot.coe_injective
      rw [coe_arrival, coe_arrival, sup_assoc, ← WithBot.coe_sup,
        sup_eq_right.mpr (h t (List.mem_cons_self ..))]
    rw [replies_cons, replies_cons]
    by_cases hle : arrival s t - m.tolerance ≤ t
    · rw [reserve_of_le hle, reserve_of_le (harrival ▸ hle), harrival]
    · rw [reserve_of_not_le hle, reserve_of_not_le (harrival ▸ hle), harrival,
        ih fun u hu => h u (List.mem_cons_of_mem _ hu)]

theorem reserve_map {β : Type*} [AddCommGroup β] [LinearOrder β] [IsOrderedAddMonoid β] (k : α →+ β)
    (hk : StrictMono k) (c : β) (s : WithBot α) (now : α) :
    (Meter.mk (k m.interval) (k m.tolerance)).reserve (s.map fun x => c + k x) (c + k now) =
      (((m.reserve s now).1.1, k (m.reserve s now).1.2), (m.reserve s now).2.map fun x =>
        c + k x) := by
  have harrival : arrival (s.map fun x => c + k x) (c + k now) = c + k (arrival s now) := by
    induction s using WithBot.recBotCoe with
    | bot => simp
    | coe a => rw [WithBot.map_coe, arrival_coe, arrival_coe, max_add_add_left, hk.monotone.map_max]
  have hle : c + k (arrival s now) - k m.tolerance ≤ c + k now ↔
      arrival s now - m.tolerance ≤ now := by
    rw [add_sub_assoc, ← map_sub, add_le_add_iff_left, hk.le_iff_le]
  by_cases h : arrival s now - m.tolerance ≤ now
  · rw [reserve_of_le h, reserve_of_le (by rw [harrival]; exact hle.mpr h), harrival, map_zero,
      WithBot.map_coe,
      map_add, add_assoc]
  · rw [reserve_of_not_le h, reserve_of_not_le (by rw [harrival]; exact fun h' => h (hle.mp h')),
      harrival]
    congr 2
    rw [map_sub, map_sub]
    abel

def Spaced (m : Meter α) (ts : List α) : Prop :=
  ∀ (i j : ℕ) (t u : α), i ≤ j → ts[i]? = some t → ts[j]? = some u →
    t + (j - i) • m.interval ≤ u + m.tolerance

def SpacedFrom (m : Meter α) (s : WithBot α) (ts : List α) : Prop :=
  ∀ a : α, s = a → ∀ (j : ℕ) (u : α), ts[j]? = some u → a + j • m.interval ≤ u + m.tolerance

theorem spacedFrom_cons {ts : List α} :
    m.SpacedFrom s (t :: ts) ↔ (∀ a : α, s = a → a ≤ t + m.tolerance) ∧
      ∀ a : α, s = a → m.SpacedFrom (a + m.interval : α) ts := by
  constructor
  · intro h
    refine ⟨fun a ha => ?_, fun a ha b hb j u hj => ?_⟩
    · have := h a ha 0 t rfl
      simpa using this
    · obtain rfl := WithBot.coe_injective hb
      have := h a ha (j + 1) u hj
      rwa [succ_nsmul', ← add_assoc] at this
  · rintro ⟨hhead, hrest⟩ a ha j u hj
    cases j with
    | zero =>
      cases hj
      simpa using hhead a ha
    | succ j =>
      rw [succ_nsmul', ← add_assoc]
      exact hrest a ha _ rfl j u hj

variable [IsOrderedAddMonoid α]

theorem reserve_debt (h : (m.reserve s now).1.1 = true) :
    (m.reserve s now).2 ≤ ((now + (m.tolerance + m.interval) : α) : WithBot α) := by
  have hle := reserve_admits.mp h
  rw [reserve_of_le hle, WithBot.coe_le_coe, ← add_assoc]
  exact add_le_add_left (sub_le_iff_le_add.mp hle) _

theorem reserve_after_wait (hm : 0 ≤ m.tolerance) (hdenied : (m.reserve s now).1.1 = false) (t : α) :
    0 < (m.reserve s now).1.2 ∧ (m.reserve s now).2 = s ∧
      ((m.reserve s t).1.1 = true ↔ now + (m.reserve s now).1.2 ≤ t) := by
  have hlate : ¬ arrival s now - m.tolerance ≤ now := by
    intro hle
    rw [reserve_of_le hle] at hdenied
    cases hdenied
  rw [reserve_of_not_le hlate, reserve_admits]
  have hahead : ¬ s ≤ now := by
    intro hs
    rw [arrival_of_le hs] at hlate
    exact hlate (sub_le_self _ hm)
  refine ⟨sub_pos.mpr (not_le.mp hlate), rfl, ?_⟩
  induction s using WithBot.recBotCoe with
  | bot => exact absurd bot_le hahead
  | coe a =>
    have ha : now < a := by
      rw [WithBot.coe_le_coe, not_le] at hahead
      exact hahead
    rw [arrival_coe, arrival_coe, sup_eq_left.mpr ha.le, add_sub_cancel]
    constructor
    · intro h
      exact (sub_le_sub_right le_sup_left _).trans h
    · intro h
      rcases le_total a t with hat | hta
      · rw [sup_eq_right.mpr hat]
        exact sub_le_self _ hm
      · rwa [sup_eq_left.mpr hta]

theorem spaced_cons {ts : List α} :
    m.Spaced (t :: ts) ↔ 0 ≤ m.tolerance ∧ m.SpacedFrom (t + m.interval : α) ts ∧ m.Spaced ts := by
  constructor
  · intro h
    refine ⟨?_, ?_, ?_⟩
    · have := h 0 0 t t le_rfl rfl rfl
      simpa using this
    · intro a ha j u hj
      obtain rfl := WithBot.coe_injective ha
      have := h 0 (j + 1) t u (by omega) rfl hj
      rwa [Nat.sub_zero, succ_nsmul', ← add_assoc] at this
    · intro i j v u hij hi hj
      have := h (i + 1) (j + 1) v u (by omega) hi hj
      rwa [Nat.add_sub_add_right] at this
  · rintro ⟨hm, hfrom, hrest⟩ i j v u hij hi hj
    cases j with
    | zero =>
      obtain rfl : i = 0 := by omega
      cases hi
      cases hj
      simpa using hm
    | succ j =>
      cases i with
      | zero =>
        cases hi
        rw [Nat.sub_zero, succ_nsmul', ← add_assoc]
        exact hfrom _ rfl j u hj
      | succ i =>
        rw [Nat.add_sub_add_right]
        exact hrest i j v u (by omega) hi hj

theorem spacedFrom_sup {ts : List α} (a b : α) :
    m.SpacedFrom ((a ⊔ b : α) : WithBot α) ts ↔
      m.SpacedFrom (a : WithBot α) ts ∧ m.SpacedFrom (b : WithBot α) ts := by
  constructor
  · intro h
    constructor
    · intro c hc j u hj
      obtain rfl := WithBot.coe_injective hc
      exact (add_le_add_left le_sup_left _).trans (h _ rfl j u hj)
    · intro c hc j u hj
      obtain rfl := WithBot.coe_injective hc
      exact (add_le_add_left le_sup_right _).trans (h _ rfl j u hj)
  · rintro ⟨ha, hb⟩ c hc j u hj
    obtain rfl := WithBot.coe_injective hc
    rcases le_total a b with hab | hba
    · rw [sup_eq_right.mpr hab]
      exact hb _ rfl j u hj
    · rw [sup_eq_left.mpr hba]
      exact ha _ rfl j u hj

theorem admits_all_iff (ts : List α) :
    (∀ r ∈ replies m.reserve s ts, r.1 = true) ↔ m.SpacedFrom s ts ∧ m.Spaced ts := by
  induction ts generalizing s with
  | nil => simp [SpacedFrom, Spaced]
  | cons t ts ih =>
    rw [replies_cons, List.forall_mem_cons, reserve_admits, ih, spaced_cons, spacedFrom_cons,
      sub_le_iff_le_add]
    induction s using WithBot.recBotCoe with
    | bot =>
      rw [arrival_bot]
      simp only [WithBot.bot_ne_coe, false_imp_iff, implies_true, true_and]
      rw [le_add_iff_nonneg_right]
      apply and_congr_right
      intro hm
      rw [reserve_of_le (by simpa using hm), arrival_bot]
    | coe a =>
      rw [arrival_coe, sup_le_iff, le_add_iff_nonneg_right]
      simp only [WithBot.coe_inj, forall_eq']
      constructor
      · rintro ⟨⟨ha, hm⟩, hfrom, hrest⟩
        rw [reserve_of_le (by simpa [sub_le_iff_le_add] using And.intro ha hm), arrival_coe,
          ← max_add_add_right, spacedFrom_sup] at hfrom
        exact ⟨⟨ha, hfrom.1⟩, hm, hfrom.2, hrest⟩
      · rintro ⟨⟨ha, hfrom⟩, hm, hfrom', hrest⟩
        rw [reserve_of_le (by simpa [sub_le_iff_le_add] using And.intro ha hm), arrival_coe,
          ← max_add_add_right, spacedFrom_sup]
        exact ⟨⟨ha, hm⟩, ⟨hfrom, hfrom'⟩, hrest⟩

theorem wait_nonneg {ts : List α} : ∀ r ∈ replies m.reserve s ts, 0 ≤ r.2 := by
  induction ts generalizing s with
  | nil => simp
  | cons t ts ih =>
    rw [replies_cons, List.forall_mem_cons]
    refine ⟨?_, ih⟩
    by_cases hle : arrival s t - m.tolerance ≤ t
    · rw [reserve_of_le hle]
    · rw [reserve_of_not_le hle]
      exact (sub_pos.mpr (not_le.mp hle)).le

theorem wait_le {b : α} (hb : 0 ≤ b) (htol : 0 ≤ b + m.tolerance) {ts : List α}
    (hs : ∀ a : α, s = a → ∀ u ∈ ts, a - m.tolerance - u ≤ b)
    (hspan : ∀ t ∈ ts, ∀ u ∈ ts, t + m.interval - u ≤ b) : ∀ r ∈ replies m.reserve s ts, r.2 ≤ b := by
  induction ts generalizing s with
  | nil => simp
  | cons t ts ih =>
    have hspan' : ∀ v ∈ ts, ∀ u ∈ ts, v + m.interval - u ≤ b :=
      fun v hv u hu => hspan v (List.mem_cons_of_mem _ hv) u (List.mem_cons_of_mem _ hu)
    rw [replies_cons, List.forall_mem_cons]
    by_cases hle : arrival s t - m.tolerance ≤ t
    · have hdebt := reserve_debt (reserve_admits.mpr hle)
      refine ⟨by rwa [reserve_of_le hle], ih (fun a ha u hu => ?_) hspan'⟩
      rw [ha, WithBot.coe_le_coe] at hdebt
      calc a - m.tolerance - u ≤ t + (m.tolerance + m.interval) - m.tolerance - u := by gcongr
        _ = t + m.interval - u := by abel
        _ ≤ b := hspan t (List.mem_cons_self ..) u (List.mem_cons_of_mem _ hu)
    · rw [reserve_of_not_le hle]
      refine ⟨?_, ih (fun a ha u hu => hs a ha u (List.mem_cons_of_mem _ hu)) hspan'⟩
      induction s using WithBot.recBotCoe with
      | bot =>
        rw [arrival_bot, sub_right_comm, sub_self, zero_sub]
        exact neg_le_iff_add_nonneg.mpr htol
      | coe a =>
        rw [arrival_coe]
        rcases le_total a t with hat | hta
        · rw [sup_eq_right.mpr hat, sub_right_comm, sub_self, zero_sub]
          exact neg_le_iff_add_nonneg.mpr htol
        · rw [sup_eq_left.mpr hta]
          exact hs a rfl t (List.mem_cons_self ..)

/-- A meter with less tolerance and the same interval. -/
structure Stricter (m m' : Meter α) : Prop where
  interval : m'.interval = m.interval
  tolerance : m'.tolerance < m.tolerance

theorem Stricter.replies_eq_iff {m m' : Meter α} (h : Stricter m m') (ts : List α) :
    replies m'.reserve s ts = replies m.reserve s ts ↔ ∀ r ∈ replies m'.reserve s ts, r.1 = true := by
  induction ts generalizing s with
  | nil => simp
  | cons t ts ih =>
    rw [replies_cons, replies_cons, List.cons.injEq, List.forall_mem_cons]
    by_cases hle : arrival s t - m'.tolerance ≤ t
    · have hle' : arrival s t - m.tolerance ≤ t := (sub_le_sub_left h.tolerance.le _).trans hle
      rw [reserve_of_le hle, reserve_of_le hle', h.interval, ih]
      simp only [true_and]
    · rw [reserve_of_not_le hle]
      simp only [Bool.false_eq_true, false_and, iff_false, not_and]
      intro heq
      by_cases hle' : arrival s t - m.tolerance ≤ t
      · rw [reserve_of_le hle'] at heq
        cases heq
      · rw [reserve_of_not_le hle'] at heq
        have hwait := congrArg Prod.snd heq
        simp only [sub_left_inj, sub_right_inj] at hwait
        exact absurd hwait h.tolerance.ne

end Meter
end ReverseProxyLb.Lib
