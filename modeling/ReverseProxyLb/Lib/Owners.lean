import Mathlib.Tactic

/-! A list divided among several owners. Each may add elements that are new to the list and
take out its own; the list is what the owners hold together. -/
namespace ReverseProxyLb.Lib
open Function

variable {α ι : Type*}

/-- Every element of the list has one owner and is there once, and every element that
is owned is there. -/
structure Divided (l : List α) (held : ι → Set α) : Prop where
  nodup : l.Nodup
  mem_iff : ∀ a, a ∈ l ↔ ∃ i, a ∈ held i
  alone : ∀ a i j, a ∈ held i → a ∈ held j → i = j

variable [DecidableEq ι] {l : List α} {held : ι → Set α} {i : ι} {s : Set α} {a : α}

theorem mem_update_iff {j : ι} : a ∈ update held i s j ↔ j = i ∧ a ∈ s ∨ j ≠ i ∧ a ∈ held j := by
  by_cases h : j = i
  · subst h
    simp
  · simp [h]

theorem Divided.acting (h : Divided l held) (i : ι) : Divided l (update held i (held i)) := by
  rw [update_eq_self]
  exact h

theorem Divided.add (h : Divided l (update held i s)) (ha : a ∉ l) :
    Divided (l ++ [a]) (update held i (insert a s)) := by
  have hout : ∀ j, a ∉ update held i s j := fun j hj => ha ((h.mem_iff a).mpr ⟨j, hj⟩)
  have hgrow : ∀ b j, b ∈ update held i (insert a s) j ↔ (b = a ∧ j = i) ∨ b ∈ update held i s j := by
    intro b j
    simp only [mem_update_iff, Set.mem_insert_iff]
    tauto
  refine ⟨?_, fun b => ?_, fun b j k hj hk => ?_⟩
  · rw [List.nodup_append_comm]
    exact List.nodup_cons.mpr ⟨ha, h.nodup⟩
  · rw [List.mem_append, List.mem_singleton, h.mem_iff b]
    constructor
    · rintro (⟨j, hj⟩ | rfl)
      · exact ⟨j, (hgrow b j).mpr (.inr hj)⟩
      · exact ⟨i, (hgrow b i).mpr (.inl ⟨rfl, rfl⟩)⟩
    · rintro ⟨j, hj⟩
      rcases (hgrow b j).mp hj with ⟨rfl, _⟩ | hj
      · exact .inr rfl
      · exact .inl ⟨j, hj⟩
  · rcases (hgrow b j).mp hj with ⟨rfl, rfl⟩ | hj <;> rcases (hgrow b k).mp hk with ⟨hb, rfl⟩ | hk
    · rfl
    · exact absurd hk (hout k)
    · exact absurd (hb ▸ hj) (hout j)
    · exact h.alone b j k hj hk

theorem Divided.remove [DecidableEq α] (h : Divided l (update held i s)) (ha : a ∈ l → a ∈ s) :
    Divided (l.erase a) (update held i (s \ {a})) := by
  have hless : ∀ b j, b ∈ update held i (s \ {a}) j ↔ b ≠ a ∧ b ∈ update held i s j := by
    intro b j
    simp only [mem_update_iff, Set.mem_sdiff, Set.mem_singleton_iff]
    constructor
    · rintro (⟨rfl, hb, hne⟩ | ⟨hj, hb⟩)
      · exact ⟨hne, .inl ⟨rfl, hb⟩⟩
      · refine ⟨?_, .inr ⟨hj, hb⟩⟩
        rintro rfl
        have hb' : b ∈ update held i s j := mem_update_iff.mpr (.inr ⟨hj, hb⟩)
        have hin : b ∈ s := ha ((h.mem_iff b).mpr ⟨j, hb'⟩)
        exact hj (h.alone b j i hb' (mem_update_iff.mpr (.inl ⟨rfl, hin⟩)))
    · rintro ⟨hne, ⟨rfl, hb⟩ | hb⟩
      · exact .inl ⟨rfl, hb, hne⟩
      · exact .inr hb
  refine ⟨h.nodup.erase a, fun b => ?_, fun b j k hj hk => ?_⟩
  · rw [h.nodup.mem_erase_iff, h.mem_iff b, ← exists_and_left]
    simp only [hless]
  · exact h.alone b j k ((hless b j).mp hj).2 ((hless b k).mp hk).2

end ReverseProxyLb.Lib
