import Mathlib.Tactic

/-! Runs of a system given by a partial step function on labels, and the rule by
which an invariant of its steps becomes an invariant of its runs. -/
namespace ReverseProxyLb.Lib

variable {S L : Type*} {step : S → L → Option S}

def exec (step : S → L → Option S) : S → List L → Option S
  | s, [] => some s
  | s, l :: ls => (step s l).bind fun s' => exec step s' ls

@[simp] theorem exec_nil (s : S) : exec step s [] = some s := rfl

theorem exec_cons (s : S) (l : L) (ls : List L) :
    exec step s (l :: ls) = (step s l).bind fun s' => exec step s' ls := rfl

theorem exec_append (s : S) (ls ls' : List L) :
    exec step s (ls ++ ls') = (exec step s ls).bind fun s' => exec step s' ls' := by
  induction ls generalizing s with
  | nil => rfl
  | cons l ls ih =>
    simp only [List.cons_append, exec_cons, Option.bind_assoc]
    congr 1
    funext s'
    exact ih s'

theorem exec_cons_eq_some {s s'' : S} {l : L} {ls : List L}
    (h : exec step s (l :: ls) = some s'') :
    ∃ s', step s l = some s' ∧ exec step s' ls = some s'' := by
  rw [exec_cons] at h
  exact Option.bind_eq_some_iff.mp h

/-- Every label of the run meets `Ok` in the state it is fired from. -/
def Meets (step : S → L → Option S) (Ok : S → L → Prop) : S → List L → Prop
  | _, [] => True
  | s, l :: ls => Ok s l ∧ ∀ s' ∈ step s l, Meets step Ok s' ls

instance decidableMeets {Ok : S → L → Prop} [∀ s l, Decidable (Ok s l)] :
    (s : S) → (ls : List L) → Decidable (Meets step Ok s ls)
  | _, [] => isTrue trivial
  | s, l :: ls =>
    haveI : DecidablePred (fun s' => Meets step Ok s' ls) := fun s' => decidableMeets s' ls
    inferInstanceAs (Decidable (Ok s l ∧ ∀ s' ∈ step s l, Meets step Ok s' ls))

theorem Meets.mono {Ok Ok' : S → L → Prop} {s : S} {ls : List L} (h : Meets step Ok s ls)
    (himp : ∀ s l, Ok s l → Ok' s l) : Meets step Ok' s ls := by
  induction ls generalizing s with
  | nil => trivial
  | cons l ls ih => exact ⟨himp s l h.1, fun s' hs => ih (h.2 s' hs)⟩

/-- The invariant rule: what every step keeps, given its side condition, holds at
the end of every run whose labels all meet the condition. -/
theorem exec_invariant {Inv : S → Prop} {Ok : S → L → Prop}
    (hstep : ∀ s l s', Inv s → Ok s l → step s l = some s' → Inv s')
    {s s' : S} {ls : List L} (hm : Meets step Ok s ls) (hr : exec step s ls = some s')
    (hi : Inv s) : Inv s' := by
  induction ls generalizing s with
  | nil =>
    obtain rfl : s = s' := Option.some.inj hr
    exact hi
  | cons l ls ih =>
    obtain ⟨t, ht, hr'⟩ := exec_cons_eq_some hr
    exact ih (hm.2 t ht) hr' (hstep s l t hi hm.1 ht)

theorem meets_of_always {Ok : S → L → Prop} (h : ∀ s l, Ok s l) (s : S) (ls : List L) :
    Meets step Ok s ls := by
  induction ls generalizing s with
  | nil => trivial
  | cons l ls ih => exact ⟨h s l, fun s' _ => ih s'⟩

theorem meets_of_forall {Ok : L → Prop} {s : S} {ls : List L} (h : ∀ l ∈ ls, Ok l) :
    Meets step (fun _ l => Ok l) s ls := by
  induction ls generalizing s with
  | nil => trivial
  | cons l ls ih =>
    exact ⟨h l (List.mem_cons_self ..), fun _ _ => ih fun l' hl => h l' (List.mem_cons_of_mem _ hl)⟩

theorem meets_of_last {Good : S → Prop} (hback : ∀ s l s', step s l = some s' → Good s' → Good s)
    {s t : S} {ls : List L} (hr : exec step s ls = some t) (ht : Good t) :
    Good s ∧ Meets step (fun s l => ∀ s', step s l = some s' → Good s') s ls := by
  induction ls generalizing s with
  | nil =>
    obtain rfl : s = t := Option.some.inj hr
    exact ⟨ht, trivial⟩
  | cons l ls ih =>
    obtain ⟨u, hu, hrest⟩ := exec_cons_eq_some hr
    obtain ⟨hgood, hmeets⟩ := ih hrest
    refine ⟨hback s l u hu hgood, fun s' hs' => ?_, fun s' hs' => ?_⟩
    · rwa [← Option.some.inj (hu.symm.trans hs')]
    · rwa [← Option.some.inj (hu.symm.trans hs')]

/-- The invariant rule for an unconditional invariant. -/
theorem exec_keeps {Inv : S → Prop} (hstep : ∀ s l s', Inv s → step s l = some s' → Inv s')
    {s s' : S} {ls : List L} (hr : exec step s ls = some s') (hi : Inv s) : Inv s' := by
  have hm : Meets step (fun _ _ => True) s ls := meets_of_forall fun _ _ => trivial
  exact exec_invariant (fun s l s' hi _ hs => hstep s l s' hi hs) hm hr hi

/-- The rule for what depends on the run that led to a state. -/
theorem exec_history {Inv : List L → S → Prop} {s₀ : S} (hstart : Inv [] s₀)
    (hstep : ∀ ls s l s', exec step s₀ ls = some s → step s l = some s' → Inv ls s →
      Inv (ls ++ [l]) s')
    {s : S} {ls : List L} (hr : exec step s₀ ls = some s) : Inv ls s := by
  induction ls using List.reverseRecOn generalizing s with
  | nil =>
    obtain rfl : s₀ = s := Option.some.inj hr
    exact hstart
  | append_singleton ls l ih =>
    rw [exec_append] at hr
    obtain ⟨t, ht, hl⟩ := Option.bind_eq_some_iff.mp hr
    obtain ⟨s', hs', hnil⟩ := exec_cons_eq_some hl
    obtain rfl : s' = s := Option.some.inj hnil
    exact hstep ls t l s' ht hs' (ih ht)

/-- The invariant rule where a step may use that its state has been reached. -/
theorem exec_reached {Inv : S → Prop} {s₀ : S}
    (hstep : ∀ ls s l s', exec step s₀ ls = some s → step s l = some s' → Inv s → Inv s')
    {s : S} {ls : List L} (hr : exec step s₀ ls = some s) (hi : Inv s₀) : Inv s := by
  have hhistory : ∀ ls s l s', exec step s₀ ls = some s → step s l = some s' →
      (fun _ => Inv) ls s → (fun _ => Inv) (ls ++ [l]) s' := hstep
  exact exec_history hi hhistory hr

theorem meets_append {Ok : S → L → Prop} {s : S} {ls ls' : List L} :
    Meets step Ok s (ls ++ ls') ↔
      Meets step Ok s ls ∧ ∀ s', exec step s ls = some s' → Meets step Ok s' ls' := by
  induction ls generalizing s with
  | nil => simp [Meets]
  | cons l ls ih =>
    simp only [List.cons_append, Meets, ih, exec_cons]
    constructor
    · rintro ⟨ho, hn⟩
      refine ⟨⟨ho, fun s' hs => (hn s' hs).1⟩, fun t ht => ?_⟩
      obtain ⟨s', hs, he⟩ := Option.bind_eq_some_iff.mp ht
      exact (hn s' hs).2 t he
    · rintro ⟨⟨ho, hn⟩, ht⟩
      exact ⟨ho, fun s' hs => ⟨hn s' hs, fun t he => ht t (by rw [hs]; exact he)⟩⟩

theorem meets_congr {Inv : S → Prop} {Ok Ok' : S → L → Prop}
    (hstep : ∀ s l s', Inv s → step s l = some s' → Inv s') (hiff : ∀ s l, Inv s → (Ok s l ↔ Ok' s l))
    {s : S} {ls : List L} (hi : Inv s) : Meets step Ok s ls ↔ Meets step Ok' s ls := by
  induction ls generalizing s with
  | nil => exact Iff.rfl
  | cons l ls ih =>
    apply and_congr (hiff s l hi)
    exact forall₂_congr fun s' hs => ih (hstep s l s' hi hs)

theorem always_iff_meets {Inv P : S → Prop} {Ok : S → L → Prop}
    (hinv : ∀ s l s', Inv s → step s l = some s' → Inv s')
    (hiff : ∀ s l s', Inv s → P s → step s l = some s' → (P s' ↔ Ok s l))
    (hstuck : ∀ s l, step s l = none → Ok s l) {s : S} {ls : List L} (hi : Inv s) (hp : P s) :
    (∀ n s', exec step s (ls.take n) = some s' → P s') ↔ Meets step Ok s ls := by
  induction ls generalizing s with
  | nil =>
    refine iff_of_true (fun n s' hr => ?_) trivial
    rw [List.take_nil] at hr
    obtain rfl : s = s' := Option.some.inj hr
    exact hp
  | cons l ls ih =>
    cases hs : step s l with
    | none =>
      refine iff_of_true (fun n s' hr => ?_) ⟨hstuck s l hs, by simp [hs]⟩
      cases n with
      | zero =>
        obtain rfl : s = s' := Option.some.inj hr
        exact hp
      | succ n =>
        rw [List.take_succ_cons, exec_cons, hs] at hr
        cases hr
    | some t =>
      constructor
      · intro hall
        have ht : P t := hall 1 t (by rw [List.take_succ_cons, exec_cons, hs]; rfl)
        refine ⟨(hiff s l t hi hp hs).mp ht, fun t' ht' => ?_⟩
        obtain rfl : t = t' := Option.some.inj (hs.symm.trans ht')
        refine (ih (hinv s l t hi hs) ht).mp fun n s' hr => hall (n + 1) s' ?_
        rw [List.take_succ_cons, exec_cons, hs]
        exact hr
      · rintro ⟨hok, hrest⟩ n s' hr
        cases n with
        | zero =>
          obtain rfl : s = s' := Option.some.inj hr
          exact hp
        | succ n =>
          rw [List.take_succ_cons, exec_cons, hs] at hr
          exact (ih (hinv s l t hi hs) ((hiff s l t hi hp hs).mpr hok)).mpr (hrest t hs) n s' hr

theorem exec_iff_meets {Inv P : S → Prop} {Ok : S → L → Prop}
    (hinv : ∀ s l s', Inv s → step s l = some s' → Inv s')
    (hiff : ∀ s l s', Inv s → P s → step s l = some s' → (P s' ↔ Ok s l))
    (hback : ∀ s l s', Inv s → step s l = some s' → P s' → P s)
    {s s' : S} {ls : List L} (hr : exec step s ls = some s') (hi : Inv s) (hp : P s) :
    P s' ↔ Meets step Ok s ls := by
  have hearlier : ∀ (ls : List L) (s : S), Inv s → exec step s ls = some s' → P s' → P s := by
    intro ls
    induction ls with
    | nil =>
      intro s _ hr hp
      rwa [Option.some.inj hr]
    | cons l ls ih =>
      intro s hi hr hp
      obtain ⟨t, ht, hr'⟩ := exec_cons_eq_some hr
      exact hback s l t hi ht (ih t (hinv s l t hi ht) hr' hp)
  induction ls generalizing s with
  | nil =>
    obtain rfl : s = s' := Option.some.inj hr
    exact iff_of_true hp trivial
  | cons l ls ih =>
    obtain ⟨t, ht, hr'⟩ := exec_cons_eq_some hr
    have hi' := hinv s l t hi ht
    have hstep := hiff s l t hi hp ht
    have hnext : ∀ s' ∈ step s l, s' = t :=
      fun s' hs' => Option.some.inj ((Option.mem_def.mp hs').symm.trans ht)
    constructor
    · intro hend
      have hpt := hearlier ls t hi' hr' hend
      refine ⟨hstep.mp hpt, fun u hu => ?_⟩
      rw [hnext u hu]
      exact (ih hr' hi' hpt).mp hend
    · rintro ⟨hok, hrest⟩
      exact (ih hr' hi' (hstep.mpr hok)).mpr (hrest t ht)

end ReverseProxyLb.Lib
