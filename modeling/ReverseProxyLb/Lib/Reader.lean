import Mathlib.Data.PNat.Basic
import Mathlib.Tactic

/-! A reader hands out its content in pieces of its own choice and says when it has come to
the end. Reading until then gives the content. -/
namespace ReverseProxyLb.Lib

variable {α σ τ : Type}

/-- A reader with its states. `size` bounds how often it is read before the end. -/
structure Reader (α σ : Type) where
  read : σ → ℕ → List α × Bool × σ
  content : σ → List α
  size : σ → ℕ
  length_read : ∀ s k, (read s k).1.length ≤ k
  content_read : ∀ s k, (read s k).1 ++ content (read s k).2.2 = content s
  content_end : ∀ s k, (read s k).2.1 = true → content (read s k).2.2 = []
  progress : ∀ s (k : ℕ+), (read s k).2.1 = true ∨ size (read s k).2.2 < size s

namespace Reader

def ofList : Reader α (List α) where
  read l k := if l = [] then ([], true, []) else (l.take k, false, l.drop k)
  content l := l
  size l := l.length
  length_read l k := by split_ifs <;> simp
  content_read l k := by
    split_ifs with h
    · exact h.symm
    · exact List.take_append_drop k l
  content_end l k := by split_ifs <;> simp
  progress l k := by
    split_ifs with h
    · exact .inl rfl
    · have := List.length_pos_iff.mpr h
      have := k.pos
      exact .inr (by rw [List.length_drop]; omega)

/-- A reader of what arrives in chunks; `eager` says the end together with the last of them. -/
def ofChunks (eager : Bool) : Reader α (List (List α)) where
  read
    | [], _ => ([], true, [])
    | chunk :: rest, k =>
      if chunk.length ≤ k then (chunk, eager && rest.isEmpty, rest)
        else (chunk.take k, false, chunk.drop k :: rest)
  content chunks := chunks.flatten
  size chunks := chunks.flatten.length + chunks.length
  length_read
    | [], k => by simp
    | chunk :: rest, k => by
      dsimp only
      split_ifs with h
      · exact h
      · simp
  content_read
    | [], k => rfl
    | chunk :: rest, k => by
      dsimp only
      split_ifs
      · rfl
      · simp [← List.append_assoc]
  content_end
    | [], k => by simp
    | chunk :: rest, k => by
      dsimp only
      split_ifs
      · simp +contextual
      · simp
  progress
    | [], k => .inl rfl
    | chunk :: rest, k => by
      have := k.pos
      dsimp only
      split_ifs
      · exact .inr (by simp; omega)
      · exact .inr (by simp; omega)

def limit (r : Reader α σ) : Reader α (σ × ℕ) where
  read s k :=
    if s.2 = 0 then ([], true, s)
    else
      let (d, eof, s') := r.read s.1 (min k s.2)
      (d, eof, s', s.2 - d.length)
  content s := (r.content s.1).take s.2
  size s := r.size s.1
  length_read s k := by
    split_ifs
    · exact Nat.zero_le k
    · exact (r.length_read _ _).trans (min_le_left _ _)
  content_read s k := by
    split_ifs with h
    · rfl
    · have hlen := (r.length_read s.1 (min k s.2)).trans (min_le_right _ _)
      dsimp only
      rw [← r.content_read s.1 (min k s.2), List.take_append, List.take_of_length_le hlen]
  content_end s k := by
    split_ifs with h
    · simp [h]
    · intro heof
      simp [r.content_end _ _ heof]
  progress s k := by
    split_ifs with h
    · exact .inl rfl
    · exact r.progress s.1 ⟨min k s.2, by simpa using Nat.pos_of_ne_zero h⟩

def chain (a : Reader α σ) (b : Reader α τ) : Reader α (Option σ × τ) where
  read
    | (none, t), k => ((b.read t k).1, (b.read t k).2.1, none, (b.read t k).2.2)
    | (some s, t), k =>
      let (d, eof, s') := a.read s k
      if eof then
        if d = [] then ((b.read t k).1, (b.read t k).2.1, none, (b.read t k).2.2)
          else (d, false, none, t)
      else (d, false, some s', t)
  content s := s.1.elim [] a.content ++ b.content s.2
  size s := s.1.elim 0 (a.size · + 1) + b.size s.2
  length_read
    | (none, t), k => b.length_read t k
    | (some s, t), k => by
      dsimp only
      split_ifs
      · exact b.length_read t k
      · exact a.length_read s k
      · exact a.length_read s k
  content_read
    | (none, t), k => b.content_read t k
    | (some s, t), k => by
      have ha := a.content_read s k
      dsimp only
      split_ifs with heof hd
      · rw [a.content_end s k heof, hd] at ha
        simpa [← ha] using b.content_read t k
      · rw [a.content_end s k heof, List.append_nil] at ha
        simp [← ha]
      · simp [← ha]
  content_end
    | (none, t), k => b.content_end t k
    | (some s, t), k => by
      dsimp only
      split_ifs
      · exact b.content_end t k
      · simp
      · simp
  progress
    | (none, t), k => (b.progress t k).imp_right fun h => by simpa using h
    | (some s, t), k => by
      dsimp only [Option.elim_none, Option.elim_some]
      split_ifs with heof
      · exact (b.progress t k).imp_right fun h => by
          simp only [Option.elim_none]
          exact Nat.lt_add_left _ (by omega)
      · simp
      · have := (a.progress s k).resolve_left heof
        exact .inr (by simpa using this)

variable (r : Reader α σ) (sizes : ℕ → ℕ+)

/-- Read until the end, at most `fuel` times: what was read, whether the end was reached, and the
state that is left. -/
def readUpTo : ℕ → ℕ → σ → List α × Bool × σ
  | 0, _, s => ([], false, s)
  | fuel + 1, i, s =>
    let (d, eof, s') := r.read s (sizes i)
    if eof then (d, true, s')
    else
      let (rest, eof, s'') := readUpTo fuel (i + 1) s'
      (d ++ rest, eof, s'')

def readAll (s : σ) : List α × Bool × σ := r.readUpTo sizes (r.size s + 1) 0 s

theorem readUpTo_append (f : σ → List α) (hf : ∀ s k, (r.read s k).1 ++ f (r.read s k).2.2 = f s)
    (fuel i : ℕ) (s : σ) :
    (r.readUpTo sizes fuel i s).1 ++ f (r.readUpTo sizes fuel i s).2.2 = f s := by
  induction fuel generalizing i s with
  | zero => rfl
  | succ fuel ih =>
    unfold readUpTo
    dsimp only
    split_ifs
    · exact hf s _
    · rw [List.append_assoc, ih, hf]

theorem readUpTo_end (fuel i : ℕ) (s : σ) (h : r.size s < fuel) :
    (r.readUpTo sizes fuel i s).2.1 = true ∧ r.content (r.readUpTo sizes fuel i s).2.2 = [] := by
  induction fuel generalizing i s with
  | zero => exact absurd h (Nat.not_lt_zero _)
  | succ fuel ih =>
    unfold readUpTo
    dsimp only
    split_ifs with heof
    · exact ⟨rfl, r.content_end s _ heof⟩
    · have hless := (r.progress s (sizes i)).resolve_left heof
      exact ih (i + 1) _ (hless.trans_le (Nat.le_of_lt_succ h))

theorem readAll_append (f : σ → List α) (hf : ∀ s k, (r.read s k).1 ++ f (r.read s k).2.2 = f s)
    (s : σ) :
    (r.readAll sizes s).1 ++ f (r.readAll sizes s).2.2 = f s :=
  r.readUpTo_append sizes f hf _ _ s

theorem readAll_eq (s : σ) : (r.readAll sizes s).1 = r.content s ∧ (r.readAll sizes s).2.1 = true := by
  obtain ⟨heof, hempty⟩ := r.readUpTo_end sizes _ 0 s (Nat.lt_succ_self _)
  have hcontent := r.readAll_append sizes r.content r.content_read s
  rw [readAll, hempty, List.append_nil] at hcontent
  exact ⟨hcontent, heof⟩

theorem limit_content_read (s : σ × ℕ) (k : ℕ) :
    (r.limit.read s k).1 ++ r.content (r.limit.read s k).2.2.1 = r.content s.1 := by
  unfold limit
  dsimp only
  split_ifs
  · rfl
  · exact r.content_read s.1 _

end Reader
end ReverseProxyLb.Lib
