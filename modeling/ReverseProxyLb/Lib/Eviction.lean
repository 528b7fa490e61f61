import Mathlib.Data.List.AList
import Mathlib.Tactic

/-! What is left of a finite map when the entries are dropped that fail a test, and which
entry a walk over the map finds that looks for the least. -/
namespace ReverseProxyLb.Lib

variable {κ β τ : Type*} {m : AList fun _ : κ => β} {k k' : κ} {b : β}

def size (m : AList fun _ : κ => β) : ℕ := m.keys.length

theorem size_eq_length (m : AList fun _ : κ => β) : size m = m.entries.length := List.length_map ..

@[simp] theorem size_empty : size (∅ : AList fun _ : κ => β) = 0 := rfl

theorem size_le_of_mem {s : List κ} (h : ∀ k ∈ m, k ∈ s) : size m ≤ s.length :=
  (m.keys_nodup.subperm fun k hk => h k (AList.mem_keys.mpr hk)).length_le

def remap (f : β → β) (m : AList fun _ : κ => β) : AList fun _ : κ => β :=
  ⟨m.entries.map fun e => ⟨e.1, f e.2⟩, m.nodupKeys.map₂ fun _ => f⟩

@[simp] theorem keys_remap (f : β → β) : (remap f m).keys = m.keys := by
  change (m.entries.map _).map Sigma.fst = m.entries.map Sigma.fst
  rw [List.map_map]
  rfl

@[simp] theorem size_remap (f : β → β) : size (remap f m) = size m := by rw [size, keys_remap, size]

variable [DecidableEq κ]

theorem size_insert_of_mem (h : k ∈ m) : size (m.insert k b) = size m := by
  rw [size, AList.keys_insert, List.length_cons, List.length_erase_of_mem (AList.mem_keys.mp h), size]
  have : 0 < m.keys.length := List.length_pos_of_mem (AList.mem_keys.mp h)
  omega

theorem size_insert_of_notMem (h : k ∉ m) : size (m.insert k b) = size m + 1 := by
  rw [size, AList.keys_insert, List.erase_of_not_mem (fun hk => h (AList.mem_keys.mpr hk)),
    List.length_cons, size]

theorem size_erase (h : k ∈ m) : size (m.erase k) + 1 = size m := by
  rw [size, AList.keys_erase, List.length_erase_of_mem (AList.mem_keys.mp h), size]
  have : 0 < m.keys.length := List.length_pos_of_mem (AList.mem_keys.mp h)
  omega

theorem lookup_eq_some_mem (h : m.lookup k = some b) : k ∈ m := AList.lookup_isSome.mp (by rw [h]; rfl)

def keep (p : β → Bool) (m : AList fun _ : κ => β) : AList fun _ : κ => β :=
  ⟨m.entries.filter fun e => p e.2, m.nodupKeys.sublist List.filter_sublist⟩

@[simp] theorem lookup_keep (p : β → Bool) : (keep p m).lookup k = (m.lookup k).filter p := by
  ext b
  rw [← Option.mem_def, ← Option.mem_def, AList.mem_lookup_iff, Option.mem_filter_iff,
    AList.mem_lookup_iff, keep,
    List.mem_filter]

omit [DecidableEq κ] in
theorem size_keep_le {p : β → Bool} : size (keep p m) ≤ size m := by
  rw [size_eq_length, size_eq_length]
  exact List.length_filter_le ..

theorem size_keep_lt {p : β → Bool} (h : m.lookup k = some b) (hb : p b = false) :
    size (keep p m) < size m := by
  rw [size_eq_length, size_eq_length]
  exact List.length_filter_lt_length_iff_exists.mpr ⟨⟨k, b⟩, AList.mem_lookup_iff.mp h, by simp [hb]⟩

omit [DecidableEq κ] in
theorem exists_mem_of_size_pos (h : 0 < size m) : ∃ k, k ∈ m := by
  obtain ⟨k, hk⟩ := List.exists_mem_of_length_pos h
  exact ⟨k, AList.mem_keys.mpr hk⟩

@[simp] theorem lookup_remap (f : β → β) : (remap f m).lookup k = (m.lookup k).map f := by
  ext b
  rw [← Option.mem_def, AList.mem_lookup_iff, remap, List.mem_map, Option.map_eq_some_iff]
  constructor
  · rintro ⟨e, he, heq⟩
    cases heq
    exact ⟨e.2, AList.mem_lookup_iff.mpr he, rfl⟩
  · rintro ⟨b, hb, rfl⟩
    exact ⟨⟨k, b⟩, AList.mem_lookup_iff.mp hb, rfl⟩

theorem mem_of_mem_keep {p : β → Bool} (h : k ∈ keep p m) : k ∈ m := by
  rw [← AList.lookup_isSome, lookup_keep] at h
  obtain ⟨b, hb⟩ := Option.isSome_iff_exists.mp h
  exact lookup_eq_some_mem (Option.filter_eq_some_iff.mp hb).1

def walk [LT τ] [DecidableLT τ] (f : β → τ) :
    Option (Σ _ : κ, β) → List (Σ _ : κ, β) → Option (Σ _ : κ, β)
  | best, [] => best
  | none, e :: es => walk f (some e) es
  | some b, e :: es => walk f (some (if f e.2 < f b.2 then e else b)) es

def least [LT τ] [DecidableLT τ] (f : β → τ) (m : AList fun _ : κ => β) : Option κ :=
  (walk f none m.entries).map Sigma.fst

section Least
variable [LinearOrder τ] {f : β → τ}

omit [DecidableEq κ] in
theorem walk_some (e : Σ _ : κ, β) (es : List (Σ _ : κ, β)) :
    ∃ x ∈ e :: es, walk f (some e) es = some x ∧ ∀ y ∈ e :: es, f x.2 ≤ f y.2 := by
  induction es generalizing e with
  | nil => exact ⟨e, List.mem_cons_self .., rfl, by simp⟩
  | cons e' es ih =>
    obtain ⟨x, hx, hwalk, hleast⟩ := ih (if f e'.2 < f e.2 then e' else e)
    rw [walk, hwalk]
    by_cases hlt : f e'.2 < f e.2
    · rw [if_pos hlt] at hx hleast
      refine ⟨x, List.mem_cons_of_mem _ hx, rfl, fun y hy => ?_⟩
      rcases List.mem_cons.mp hy with rfl | hy
      · exact (hleast e' (List.mem_cons_self ..)).trans hlt.le
      · exact hleast y hy
    · rw [if_neg hlt] at hx hleast
      refine ⟨x, ?_, rfl, fun y hy => ?_⟩
      · rcases List.mem_cons.mp hx with rfl | hx
        · exact List.mem_cons_self ..
        · exact List.mem_cons_of_mem _ (List.mem_cons_of_mem _ hx)
      · rcases List.mem_cons.mp hy with rfl | hy
        · exact hleast y (List.mem_cons_self ..)
        · rcases List.mem_cons.mp hy with rfl | hy
          · exact (hleast e (List.mem_cons_self ..)).trans (not_lt.mp hlt)
          · exact hleast y (List.mem_cons_of_mem _ hy)

theorem exists_least (h : k ∈ m) :
    ∃ k' b', least f m = some k' ∧ m.lookup k' = some b' ∧ ∀ k b, m.lookup k = some b →
      f b' ≤ f b := by
  have hentries : m.entries ≠ [] := by
    rintro hnil
    rw [AList.mem_keys, AList.keys, hnil] at h
    cases h
  obtain ⟨e, es, hes⟩ := List.exists_cons_of_ne_nil hentries
  obtain ⟨x, hx, hwalk, hleast⟩ := walk_some (f := f) e es
  refine ⟨x.1, x.2, ?_, AList.mem_lookup_iff.mpr (hes ▸ hx), fun k b hb => ?_⟩
  · rw [least, hes, walk, hwalk]
    rfl
  · exact hleast ⟨k, b⟩ (hes ▸ AList.mem_lookup_iff.mp hb)

end Least
end ReverseProxyLb.Lib
