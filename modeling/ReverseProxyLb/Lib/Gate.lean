import Mathlib.Tactic

/-! A gate in front of a handler answers an input itself or hands it on, perhaps changed. A
row of gates hands on what each of them lets pass. -/
namespace ReverseProxyLb.Lib

variable {X S R L : Type*}

/-- A handler that is asked after `judge` and with what `change` makes of the input. -/
def gate (judge : X → S → Option R × S) (change : X → X) (next : X → S → R × S) : X → S → R × S :=
  fun x s =>
  match judge x s with
  | (some r, s) => (r, s)
  | (none, s) => next (change x) s

section Gate
variable {judge : X → S → Option R × S} {change : X → X} {h next : X → S → R × S} {x : X} {s : S}

theorem gate_of_none (hnone : (judge x s).1 = none) :
    gate judge change next x s = next (change x) (judge x s).2 := by
  have heq : judge x s = (none, (judge x s).2) := Prod.ext hnone rfl
  unfold gate
  rw [heq]

theorem gate_of_some {r : R} (hsome : (judge x s).1 = some r) :
    gate judge change next x s = (r, (judge x s).2) := by
  have heq : judge x s = (some r, (judge x s).2) := Prod.ext hsome rfl
  unfold gate
  rw [heq]

/-- What is admitted comes to `next` in the form `out`, and the rest is answered early. Neither touches
the part of the state. -/
structure Guards (early : R → Prop) (part : S → L) (next h : X → S → R × S) (admits : X → S → Prop)
    (out : X → X) : Prop where
  pass : ∀ x s, admits x s → ∃ s', part s' = part s ∧ h x s = next (out x) s'
  stop : ∀ x s, ¬ admits x s → ∃ r s', early r ∧ part s' = part s ∧ h x s = (r, s')

variable {early : R → Prop} {part : S → L} {admits : X → S → Prop} {out : X → X}

theorem guards_self (early : R → Prop) (part : S → L) (next : X → S → R × S) :
    Guards early part next next (fun _ _ => True) id where
  pass _ s _ := ⟨s, rfl, rfl⟩
  stop _ _ h := absurd trivial h

theorem Guards.congr (hg : Guards early part next h admits out) {admits' : X → S → Prop}
    (hiff : ∀ x s, admits' x s ↔ admits x s) : Guards early part next h admits' out where
  pass x s ha := hg.pass x s ((hiff x s).mp ha)
  stop x s ha := hg.stop x s (mt (hiff x s).mpr ha)

theorem Guards.gate (hg : Guards early part next h admits out)
    (hpart : ∀ x s, part (judge x s).2 = part s) (hearly : ∀ x s r, (judge x s).1 = some r → early r) :
    Guards early part next
      (gate judge change h) (fun x s => (judge x s).1 = none ∧ admits (change x) (judge x s).2)
      (fun x => out (change x)) where
  pass x s := by
    rintro ⟨hnone, hadmits⟩
    obtain ⟨s', hs', hh⟩ := hg.pass _ _ hadmits
    exact ⟨s', hs'.trans (hpart x s), by rw [gate_of_none hnone, hh]⟩
  stop x s := by
    intro hnot
    cases hj : (judge x s).1 with
    | some r => exact ⟨r, _, hearly x s r hj, hpart x s, gate_of_some hj⟩
    | none =>
      obtain ⟨r, s', hr, hs', hh⟩ := hg.stop _ _ (fun hadmits => hnot ⟨hj, hadmits⟩)
      exact ⟨r, s', hr, hs'.trans (hpart x s), by rw [gate_of_none hj, hh]⟩

end Gate
end ReverseProxyLb.Lib
