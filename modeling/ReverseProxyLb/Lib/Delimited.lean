import Mathlib.Tactic

/-! Texts built from fields with a separator between them: a field that does not
contain the separator can be read back. -/
namespace ReverseProxyLb.Lib

variable {α : Type*} {sep : α}

def Separated (sep : α) (rest : List α) : Prop := rest = [] ∨ ∃ tail, rest = sep :: tail

theorem separated_cons (sep : α) (tail : List α) : Separated sep (sep :: tail) :=
  Or.inr ⟨tail, rfl⟩

theorem eq_of_fields_eq {a b rest rest' : List α} (ha : sep ∉ a) (hb : sep ∉ b)
    (hr : Separated sep rest) (hr' : Separated sep rest') (h : a ++ rest = b ++ rest') :
    a = b ∧ rest = rest' := by
  induction a generalizing b with
  | nil =>
    cases b with
    | nil => exact ⟨rfl, h⟩
    | cons x b =>
      rcases hr with rfl | ⟨tail, rfl⟩
      · simp at h
      · exact absurd (List.mem_cons.mpr (Or.inl (List.cons.inj h).1)) hb
  | cons x a ih =>
    cases b with
    | nil =>
      rcases hr' with rfl | ⟨tail, rfl⟩
      · simp at h
      · exact absurd (List.mem_cons.mpr (Or.inl (List.cons.inj h).1.symm)) ha
    | cons y b =>
      obtain ⟨hxy, hrest⟩ := List.cons.inj h
      obtain ⟨hab, hrr⟩ := ih (List.not_mem_of_not_mem_cons ha) (List.not_mem_of_not_mem_cons hb) hrest
      exact ⟨by rw [hxy, hab], hrr⟩

end ReverseProxyLb.Lib
