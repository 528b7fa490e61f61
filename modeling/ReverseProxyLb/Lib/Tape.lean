import ReverseProxyLb.Lib.Run

/-! A source that several readers share: one position, and closed for all by the first to
finish. Who starts to read gets the whole content exactly if the source is as it was in the
beginning. -/
namespace ReverseProxyLb.Lib

variable {α R : Type*}

structure Source (α : Type*) where
  buffered : List α := []
  stream : Option (List α) := none

def Source.content (s : Source α) : List α := s.buffered ++ s.stream.getD []

structure Tape (α R : Type*) where
  source : Source α
  pos : ℕ := 0
  closed : Bool := false
  readers : List R := []

inductive Use (R : Type*) where
  | start (r : R)
  | read (r : R) (n : ℕ)
  | finish (r : R)
  deriving DecidableEq

def Use.amount : Use R → ℕ
  | .read _ n => n
  | .start _ | .finish _ => 0

namespace Tape

def readable (t : Tape α R) : ℕ :=
  if t.closed then t.source.buffered.length else t.source.content.length

def step [DecidableEq R] (t : Tape α R) : Use R → Option (Tape α R)
  | .start r => some { t with readers := r :: t.readers }
  | .read r n =>
    if r ∈ t.readers ∧ t.pos + n ≤ t.readable then some { t with pos := t.pos + n } else none
  | .finish r => some { t with
      readers := t.readers.erase r
      closed := true }

/-- What one who starts now reads up to the end, `none` for an error on the way. -/
def yields (t : Tape α R) : Option (List α) :=
  if t.closed ∧ t.source.stream.isSome then none else some (t.source.content.drop t.pos)

structure Saw (source : Source α) (uses : List (Use R)) (t : Tape α R) : Prop where
  same : t.source = source
  pos : t.pos = (uses.map Use.amount).sum
  le : t.pos ≤ source.content.length
  used : uses = [] ∨ t.closed = true ∨ t.readers ≠ []
  unused : uses = [] → t.closed = false ∧ t.readers = []

variable {source : Source α} {uses : List (Use R)} {t t' : Tape α R} {u : Use R}

theorem saw_start (source : Source α) : Saw source [] ({ source := source } : Tape α R) where
  same := rfl
  pos := rfl
  le := Nat.zero_le _
  used := .inl rfl
  unused _ := ⟨rfl, rfl⟩

theorem readable_le (t : Tape α R) : t.readable ≤ t.source.content.length := by
  unfold readable Source.content
  split_ifs <;> simp

theorem Saw.step [DecidableEq R] (h : Saw source uses t) (hs : t.step u = some t') :
    Saw source (uses ++ [u]) t' := by
  have hsum : ((uses ++ [u]).map Use.amount).sum = t.pos + u.amount := by
    rw [h.pos]
    simp
  cases u with
  | start r =>
    cases hs
    exact ⟨h.same, hsum.symm, h.le, .inr (.inr (by simp)), by simp⟩
  | read r n =>
    change (if r ∈ t.readers ∧ t.pos + n ≤ t.readable then some { t with pos := t.pos + n }
      else none) = _ at hs
    split_ifs at hs with hread
    cases hs
    have hle := hread.2.trans (readable_le t)
    rw [h.same] at hle
    exact ⟨h.same, hsum.symm, hle, .inr (.inr (List.ne_nil_of_mem hread.1)), by simp⟩
  | finish r =>
    cases hs
    exact ⟨h.same, hsum.symm, h.le, .inr (.inl rfl), by simp⟩

def Untouched (source : Source α) (uses : List (Use R)) (t : Tape α R) : Prop :=
  uses = [] ∨ source.stream = none ∧ t.readers = [] ∧ ∀ u ∈ uses, u.amount = 0

theorem Saw.yields_iff (h : Saw source uses t) :
    t.yields = some source.content ↔ (t.closed = true → source.stream = none) ∧ t.pos = 0 := by
  unfold yields
  rw [h.same]
  by_cases hc : t.closed ∧ source.stream.isSome
  · rw [if_pos hc]
    have hsome : source.stream ≠ none := Option.isSome_iff_ne_none.mp hc.2
    simp [hc.1, hsome]
  · rw [if_neg hc, Option.some.injEq]
    have hclosed : t.closed = true → source.stream = none := by
      intro hcl
      simpa [hcl] using hc
    constructor
    · intro hdrop
      have hlen := congrArg List.length hdrop
      have := h.le
      rw [List.length_drop] at hlen
      exact ⟨hclosed, by omega⟩
    · rintro ⟨-, hpos⟩
      rw [hpos, List.drop_zero]

theorem Saw.whole_iff (h : Saw source uses t) :
    (t.yields = some source.content ∧ t.readers = []) ↔ t.Untouched source uses := by
  have hzero : t.pos = 0 ↔ ∀ u ∈ uses, u.amount = 0 := by
    rw [h.pos, List.sum_eq_zero_iff]
    simp
  rw [h.yields_iff, hzero]
  constructor
  · rintro ⟨⟨hstream, hread⟩, hreaders⟩
    rcases h.used with hnil | hclosed | hne
    · exact .inl hnil
    · exact .inr ⟨hstream hclosed, hreaders, hread⟩
    · exact (hne hreaders).elim
  · rintro (hnil | ⟨hstream, hreaders, hread⟩)
    · obtain ⟨hclosed, hreaders⟩ := h.unused hnil
      exact ⟨⟨by simp [hclosed], by simp [hnil]⟩, hreaders⟩
    · exact ⟨⟨fun _ => hstream, hread⟩, hreaders⟩

end Tape
end ReverseProxyLb.Lib
