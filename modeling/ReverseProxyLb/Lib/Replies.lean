import Mathlib.Data.List.ReduceOption
import Mathlib.Tactic

/-! Machines that reply to every input. Those whose states stay related reply alike, and a
family with one for each key replies on a key as the machine of that key does alone. -/
namespace ReverseProxyLb.Lib

variable {σ σ' ι ο κ τ : Type*}

def replies (step : σ → ι → ο × σ) : σ → List ι → List ο
  | _, [] => []
  | s, i :: is => (step s i).1 :: replies step (step s i).2 is

section Replies
variable {step : σ → ι → ο × σ} {step' : σ' → ι → ο × σ'}

@[simp] theorem replies_nil (s : σ) : replies step s [] = [] := rfl

@[simp] theorem replies_cons (s : σ) (i : ι) (is : List ι) :
    replies step s (i :: is) = (step s i).1 :: replies step (step s i).2 is := rfl

@[simp] theorem length_replies (s : σ) (is : List ι) : (replies step s is).length = is.length := by
  induction is generalizing s with
  | nil => rfl
  | cons i is ih => simp [ih]

def Always (step : σ → ι → ο × σ) (p : σ → ι → Prop) : σ → List ι → Prop
  | _, [] => True
  | s, i :: is => p s i ∧ Always step p (step s i).2 is

theorem always_of_forall {p : σ → ι → Prop} (h : ∀ s i, p s i) (s : σ) (is : List ι) :
    Always step p s is := by
  induction is generalizing s with
  | nil => trivial
  | cons i is ih => exact ⟨h s i, ih _⟩

/-- The inputs come in order, none before `t`. -/
def InTime [LE τ] (time : ι → τ) (t : τ) (is : List ι) : Prop := (t :: is.map time).Pairwise (· ≤ ·)

theorem InTime.cons [LE τ] {time : ι → τ} {t : τ} {i : ι} {is : List ι} (h : InTime time t (i :: is)) :
    t ≤ time i ∧ InTime time (time i) is := by
  unfold InTime at h ⊢
  rw [List.map_cons, List.pairwise_cons] at h
  exact ⟨h.1 _ (List.mem_cons_self ..), h.2⟩

theorem replies_eq_of_related_while [LE τ] {time : ι → τ} {R : τ → σ → σ' → Prop} {p : σ' → ι → Prop}
    (hstep : ∀ t s s' i, R t s s' → t ≤ time i → p s' i → (step s i).1 = (step' s' i).1 ∧
      R (time i) (step s i).2 (step' s' i).2)
    {t : τ} {s : σ} {s' : σ'} (h : R t s s') {is : List ι} (htime : InTime time t is)
    (hp : Always step' p s' is) :
    replies step s is = replies step' s' is := by
  induction is generalizing t s s' with
  | nil => rfl
  | cons i is ih =>
    obtain ⟨hle, hrest⟩ := htime.cons
    obtain ⟨hreply, hnext⟩ := hstep t s s' i h hle hp.1
    rw [replies_cons, replies_cons, hreply, ih hnext hrest hp.2]

theorem replies_eq_of_related [LE τ] {time : ι → τ} {R : τ → σ → σ' → Prop}
    (hstep : ∀ t s s' i, R t s s' → t ≤ time i →
      (step s i).1 = (step' s' i).1 ∧ R (time i) (step s i).2 (step' s' i).2)
    {t : τ} {s : σ} {s' : σ'} (h : R t s s') {is : List ι} (htime : InTime time t is) :
    replies step s is = replies step' s' is :=
  replies_eq_of_related_while
    (p := fun _ _ => True) (fun t s s' i hR hle _ => hstep t s s' i hR hle) h htime
    (always_of_forall (fun _ _ => trivial) _ _)

end Replies

section Spliced
variable {ι' : Type*}

end Spliced

section Keyed
variable [DecidableEq κ] {step : σ → ι → ο × σ}

def keyed (step : σ → ι → ο × σ) (f : κ → σ) (x : κ × ι) : ο × (κ → σ) :=
  ((step (f x.1) x.2).1, Function.update f x.1 (step (f x.1) x.2).2)

def inputsAt (k : κ) (xs : List (κ × ι)) : List ι := (xs.filter fun x => x.1 = k).map Prod.snd

def repliesAt (k : κ) (xs : List (κ × ι)) (os : List ο) : List ο :=
  ((xs.zip os).filter fun x => x.1.1 = k).map Prod.snd

theorem repliesAt_keyed (k : κ) (f : κ → σ) (xs : List (κ × ι)) :
    repliesAt k xs (replies (keyed step) f xs) = replies step (f k) (inputsAt k xs) := by
  induction xs generalizing f with
  | nil => rfl
  | cons x xs ih =>
    have hrest := ih (keyed step f x).2
    unfold repliesAt inputsAt at hrest ⊢
    rw [replies_cons, List.zip_cons_cons]
    by_cases hk : x.1 = k
    · rw [List.filter_cons_of_pos (by simpa using hk), List.filter_cons_of_pos (by simpa using hk),
        List.map_cons,
        List.map_cons, hrest, replies_cons]
      subst hk
      simp [keyed]
    · rw [List.filter_cons_of_neg (by simpa using hk), List.filter_cons_of_neg (by simpa using hk),
        hrest]
      simp [keyed, Function.update_of_ne (Ne.symm hk)]

end Keyed
end ReverseProxyLb.Lib
