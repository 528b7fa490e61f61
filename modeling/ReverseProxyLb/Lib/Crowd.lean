import ReverseProxyLb.Lib.Run

/-! Parties join and act one at a time on themselves and on a shared state. Two rules: an
invariant that every party keeps for itself and for the others, and a counter that equals what
they hold together. -/
namespace ReverseProxyLb.Lib

theorem sum_map_set {G : Type*} {l : List G} {j : ℕ} {g : G} (h : l[j]? = some g) (f : G → ℤ) (y : G) :
    ((l.set j y).map f).sum = (l.map f).sum - f g + f y := by
  obtain ⟨hlt, rfl⟩ := List.getElem?_eq_some_iff.mp h
  rw [List.map_set, List.sum_set', dif_pos (by simpa using hlt), List.getElem_map]
  ring

structure Crowd (S P : Type*) where
  shared : S
  parties : List P

namespace Crowd

variable {S P J A E : Type*}

/-- How a party joins, what it may do, and how the shared state moves on its own. -/
structure Rules (S P J A E : Type*) where
  enter : S → J → Option (S × P)
  act : S → P → A → Option (S × P)
  outside : S → E → Option S

inductive Move (J A E : Type*) where
  | enter (j : J)
  | act (i : ℕ) (a : A)
  | outside (e : E)
  deriving DecidableEq, Repr

def step (R : Rules S P J A E) (c : Crowd S P) : Move J A E → Option (Crowd S P)
  | .enter j => (R.enter c.shared j).map fun r => ⟨r.1, c.parties ++ [r.2]⟩
  | .act i a => c.parties[i]?.bind fun p =>
      (R.act c.shared p a).map fun r => ⟨r.1, c.parties.set i r.2⟩
  | .outside e => (R.outside c.shared e).map fun s => ⟨s, c.parties⟩

variable {R : Rules S P J A E} {c c' : Crowd S P} {m : Move J A E}

theorem step_cases (h : c.step R m = some c') :
    (∃ j s p, m = .enter j ∧ R.enter c.shared j = some (s, p) ∧ c' = ⟨s, c.parties ++ [p]⟩) ∨
      (∃ i a p s p', m = .act i a ∧ c.parties[i]? = some p ∧ R.act c.shared p a = some (s, p') ∧
        c' = ⟨s, c.parties.set i p'⟩) ∨
      ∃ e s, m = .outside e ∧ R.outside c.shared e = some s ∧ c' = ⟨s, c.parties⟩ := by
  cases m with
  | enter j =>
    obtain ⟨⟨s, p⟩, hr, rfl⟩ := Option.map_eq_some_iff.mp h
    exact .inl ⟨j, s, p, rfl, hr, rfl⟩
  | act i a =>
    obtain ⟨p, hp, hact⟩ := Option.bind_eq_some_iff.mp h
    obtain ⟨⟨s, p'⟩, hr, rfl⟩ := Option.map_eq_some_iff.mp hact
    exact .inr (.inl ⟨i, a, p, s, p', rfl, hp, hr, rfl⟩)
  | outside e =>
    obtain ⟨s, hs, rfl⟩ := Option.map_eq_some_iff.mp h
    exact .inr (.inr ⟨e, s, rfl, hs, rfl⟩)

theorem step_at {p p' : P} {i : ℕ} (hs : c.step R m = some c') (hi : c.parties[i]? = some p)
    (hi' : c'.parties[i]? = some p') :
    (∃ a s, m = .act i a ∧ R.act c.shared p a = some (s, p')) ∨ p' = p ∧ ∀ a, m ≠ .act i a := by
  have hlt : i < c.parties.length := (List.getElem?_eq_some_iff.mp hi).1
  obtain ⟨j, s, q, rfl, -, rfl⟩ | ⟨j, a, q, s, q', rfl, hq, hact, rfl⟩ | ⟨e, s, rfl, -, rfl⟩ :=
    step_cases hs
  · right
    rw [List.getElem?_append_left hlt, hi] at hi'
    exact ⟨(Option.some.inj hi').symm, fun a => by simp⟩
  · by_cases hj : j = i
    · subst hj
      left
      obtain rfl : p = q := Option.some.inj (hi.symm.trans hq)
      rw [List.getElem?_set_self hlt] at hi'
      obtain rfl : q' = p' := Option.some.inj hi'
      exact ⟨a, s, rfl, hact⟩
    · right
      rw [List.getElem?_set_ne hj, hi] at hi'
      exact ⟨(Option.some.inj hi').symm, fun a' h => hj (by cases h; rfl)⟩
  · right
    exact ⟨Option.some.inj (hi'.symm.trans hi), fun a => by simp⟩

theorem exec_act {p p' : P} {s : S} {i : ℕ} {as : List A} (hp : c.parties[i]? = some p)
    (h : exec (fun q a => R.act q.1 q.2 a) (c.shared, p) as = some (s, p')) :
    exec (step R) c (as.map (Move.act i)) = some ⟨s, c.parties.set i p'⟩ := by
  induction as generalizing c p with
  | nil =>
    cases h
    obtain ⟨hlt, rfl⟩ := List.getElem?_eq_some_iff.mp hp
    rw [List.map_nil, exec_nil, List.set_getElem_self]
  | cons a as ih =>
    obtain ⟨⟨t, q⟩, hact, hrest⟩ := exec_cons_eq_some h
    have hlt : i < c.parties.length := (List.getElem?_eq_some_iff.mp hp).1
    have hstep : step R c (.act i a) = some ⟨t, c.parties.set i q⟩ := by
      change (c.parties[i]?.bind fun p => (R.act c.shared p a).map _) = _
      rw [hp, Option.bind_some, hact, Option.map_some]
    have hq : (⟨t, c.parties.set i q⟩ : Crowd S P).parties[i]? = some q := List.getElem?_set_self hlt
    have hall := ih hq hrest
    rw [List.set_set] at hall
    rw [List.map_cons, exec_cons, hstep, Option.bind_some, hall]

/-- The shared state meets its invariant, and every party meets its own. -/
structure Holds (Inv : S → Prop) (Each : S → P → Prop) (c : Crowd S P) : Prop where
  shared : Inv c.shared
  each : ∀ p ∈ c.parties, Each c.shared p

/-- The invariant rule: whoever moves keeps the shared invariant, its own, and those of
the others. -/
theorem holds_step_of {Inv : S → Prop} {Each : S → P → Prop}
    (henter : ∀ j s p, m = .enter j → R.enter c.shared j = some (s, p) →
      Inv s ∧ Each s p ∧ ∀ q, Each c.shared q → Each s q)
    (hact : ∀ i a p s p', m = .act i a → c.parties[i]? = some p → R.act c.shared p a = some (s, p') →
      Inv s ∧ Each s p' ∧ ∀ q, Each c.shared q → Each s q)
    (houtside : ∀ e s, m = .outside e → R.outside c.shared e = some s →
      Inv s ∧ ∀ q, Each c.shared q → Each s q)
    (h : c.Holds Inv Each) (hs : c.step R m = some c') : c'.Holds Inv Each := by
  obtain ⟨j, s, p, hm, hr, rfl⟩ | ⟨i, a, p, s, p', hm, hp, hr, rfl⟩ | ⟨e, s, hm, hr, rfl⟩ :=
    step_cases hs
  · obtain ⟨hi, hp, hothers⟩ := henter j s p hm hr
    constructor
    · exact hi
    · intro q hq
      rcases List.mem_append.mp hq with hq | hq
      · exact hothers q (h.each q hq)
      · rw [List.mem_singleton.mp hq]
        exact hp
  · obtain ⟨hi, hp', hothers⟩ := hact i a p s p' hm hp hr
    constructor
    · exact hi
    · intro q hq
      rcases List.mem_or_eq_of_mem_set hq with hq | rfl
      · exact hothers q (h.each q hq)
      · exact hp'
  · obtain ⟨hi, hothers⟩ := houtside e s hm hr
    exact ⟨hi, fun q hq => hothers q (h.each q hq)⟩

/-- The rule for any state and any party. `Ok` is the side condition of a move. -/
theorem holds_step {Inv : S → Prop} {Each : S → P → Prop} (Ok : S → Move J A E → Prop)
    (henter : ∀ s j s' p, Inv s → Ok s (.enter j) → R.enter s j = some (s', p) →
      Inv s' ∧ Each s' p ∧ ∀ q, Each s q → Each s' q)
    (hact : ∀ s i p a s' p', Inv s → Each s p → Ok s (.act i a) → R.act s p a = some (s', p') →
      Inv s' ∧ Each s' p' ∧ ∀ q, Each s q → Each s' q)
    (houtside : ∀ s e s', Inv s → Ok s (.outside e) → R.outside s e = some s' →
      Inv s' ∧ ∀ q, Each s q → Each s' q)
    (h : c.Holds Inv Each) (hok : Ok c.shared m) (hs : c.step R m = some c') :
    c'.Holds Inv Each := by
  refine holds_step_of
    (fun j s p hm hr => ?_) (fun i a p s p' hm hp hr => ?_) (fun e s hm hr => ?_) h hs
  · exact henter _ j s p h.shared (hm ▸ hok) hr
  · exact hact _ i p a s p' h.shared (h.each p (List.mem_of_getElem? hp)) (hm ▸ hok) hr
  · exact houtside _ e s h.shared (hm ▸ hok) hr

def total (w : P → ℤ) (c : Crowd S P) : ℤ := (c.parties.map w).sum

/-- The counting rule: a shared counter that changes as the holding of whoever moves is
the total of the holdings. -/
theorem total_step_of_mem {n : S → ℤ} {w : P → ℤ}
    (henter : ∀ s j s' p, R.enter s j = some (s', p) → n s' = n s + w p)
    (hact : ∀ p a s' p', p ∈ c.parties → R.act c.shared p a = some (s', p') →
      n s' = n c.shared - w p + w p')
    (houtside : ∀ s e s', R.outside s e = some s' → n s' = n s)
    (h : n c.shared = c.total w) (hs : c.step R m = some c') : n c'.shared = c'.total w := by
  obtain ⟨j, s, p, rfl, hr, rfl⟩ | ⟨i, a, p, s, p', rfl, hp, hr, rfl⟩ | ⟨e, s, rfl, hr, rfl⟩ :=
    step_cases hs
  · rw [henter _ j s p hr, h]
    simp [total]
  · rw [hact p a s p' (List.mem_of_getElem? hp) hr, h]
    unfold total
    rw [sum_map_set hp]
  · rw [houtside _ e s hr, h]
    rfl

theorem total_step {n : S → ℤ} {w : P → ℤ}
    (henter : ∀ s j s' p, R.enter s j = some (s', p) → n s' = n s + w p)
    (hact : ∀ s p a s' p', R.act s p a = some (s', p') → n s' = n s - w p + w p')
    (houtside : ∀ s e s', R.outside s e = some s' → n s' = n s)
    (h : n c.shared = c.total w) (hs : c.step R m = some c') : n c'.shared = c'.total w :=
  total_step_of_mem henter (fun p a s' p' _ hr => hact c.shared p a s' p' hr) houtside h hs

theorem le_total {w : P → ℤ} (hpos : ∀ p, 0 ≤ w p) {p : P} (hp : p ∈ c.parties) : w p ≤ c.total w := by
  have hnonneg : ∀ x ∈ c.parties.map w, 0 ≤ x := by
    intro x hx
    obtain ⟨q, -, rfl⟩ := List.mem_map.mp hx
    exact hpos q
  exact List.single_le_sum hnonneg _ (List.mem_map_of_mem hp)

/-- The rule where whoever moves may use that the counter covers its holding. -/
theorem total_step_of_le {n : S → ℤ} {w : P → ℤ} (hpos : ∀ p, 0 ≤ w p)
    (henter : ∀ s j s' p, R.enter s j = some (s', p) → n s' = n s + w p)
    (hact : ∀ s p a s' p', w p ≤ n s → R.act s p a = some (s', p') → n s' = n s - w p + w p')
    (houtside : ∀ s e s', R.outside s e = some s' → n s' = n s)
    (h : n c.shared = c.total w) (hs : c.step R m = some c') : n c'.shared = c'.total w := by
  refine total_step_of_mem henter (fun p a s' p' hp hr => ?_) houtside h hs
  have hle := le_total hpos hp
  rw [← h] at hle
  exact hact c.shared p a s' p' hle hr

theorem total_indicator (b : P → Bool) (c : Crowd S P) :
    c.total (fun p => if b p then 1 else 0) = c.parties.countP b := by
  unfold total
  induction c.parties with
  | nil => rfl
  | cons p ps ih =>
    rw [List.map_cons, List.sum_cons, List.countP_cons, ih]
    push_cast
    ring

end Crowd
end ReverseProxyLb.Lib
