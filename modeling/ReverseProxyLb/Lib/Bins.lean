import Mathlib.Algebra.BigOperators.Group.Multiset.Basic
import Mathlib.Algebra.Order.BigOperators.Group.Finset
import Mathlib.Algebra.Order.Group.Multiset
import Mathlib.Data.Fintype.BigOperators
import Mathlib.Tactic

/-! Entries that carry an instant are put into bins; one that finds its bin stale empties it
and opens it again. Whether an entry stays live while it is recent depends only on when its
bin was opened. -/
namespace ReverseProxyLb.Lib

structure Bin (τ α : Type*) where
  start : τ
  entries : Multiset α

/-- Where entries go and when a bin is stale. A bin that was never opened always is. -/
structure Binning (ι τ α : Type*) where
  time : α → τ
  place : α → ι
  stale : τ → τ → Bool
  blank : τ
  stale_blank : ∀ now, stale now blank = true

namespace Binning

variable {ι τ α : Type*} (B : Binning ι τ α)

def putIn (b : Bin τ α) (e : α) : Bin τ α :=
  if B.stale (B.time e) b.start then ⟨B.time e, {e}⟩ else ⟨b.start, e ::ₘ b.entries⟩

def live [Fintype ι] (now : τ) (bins : ι → Bin τ α) : Multiset α :=
  ∑ i, if B.stale now (bins i).start then 0 else (bins i).entries

theorem mem_putIn (b : Bin τ α) (e : α) : e ∈ (B.putIn b e).entries := by
  unfold putIn
  split <;> simp

theorem putIn_entries_le (b : Bin τ α) (e : α) : (B.putIn b e).entries ≤ e ::ₘ b.entries := by
  unfold putIn
  split
  · exact Multiset.cons_le_cons e (Multiset.zero_le _)
  · exact le_rfl

theorem mem_live [Fintype ι] {now : τ} {bins : ι → Bin τ α} {e : α} :
    e ∈ B.live now bins ↔ ∃ i, B.stale now (bins i).start = false ∧ e ∈ (bins i).entries := by
  rw [live, Multiset.mem_sum]
  simp only [Finset.mem_univ, true_and]
  apply exists_congr
  intro i
  cases B.stale now (bins i).start <;> simp

section Order

variable [Preorder τ]

def InOrder (es : List α) : Prop := es.Pairwise fun e f => B.time e ≤ B.time f

variable {B} {es es' : List α}

theorem InOrder.of_append (h : B.InOrder (es ++ es')) : B.InOrder es := (List.pairwise_append.mp h).1

theorem InOrder.of_prefix (h : B.InOrder es) (hp : es' <+: es) : B.InOrder es' := h.sublist hp.sublist

theorem InOrder.le_last {e f : α} (h : B.InOrder (es ++ [e])) (hf : f ∈ es ++ [e]) :
    B.time f ≤ B.time e := by
  obtain hf | hf := List.mem_append.mp hf
  · exact (List.pairwise_append.mp h).2.2 f hf e (List.mem_singleton_self e)
  · rw [List.mem_singleton.mp hf]

end Order

variable [DecidableEq ι]

def put (bins : ι → Bin τ α) (e : α) : ι → Bin τ α :=
  Function.update bins (B.place e) (B.putIn (bins (B.place e)) e)

def fill (es : List α) : ι → Bin τ α := es.foldl B.put fun _ => ⟨B.blank, 0⟩

def opened (es : List α) (e : α) : τ := (B.putIn (B.fill es (B.place e)) e).start

@[simp] theorem fill_nil (i : ι) : B.fill [] i = ⟨B.blank, 0⟩ := rfl

theorem fill_concat (es : List α) (e : α) : B.fill (es ++ [e]) = B.put (B.fill es) e := by
  rw [fill, List.foldl_append]
  rfl

theorem fill_concat_self (es : List α) (e : α) :
    B.fill (es ++ [e]) (B.place e) = B.putIn (B.fill es (B.place e)) e := by
  rw [fill_concat, put, Function.update_self]

theorem fill_concat_of_ne (es : List α) (e : α) {i : ι} (h : i ≠ B.place e) :
    B.fill (es ++ [e]) i = B.fill es i := by
  rw [fill_concat, put, Function.update_of_ne h]

theorem place_of_mem {es : List α} {e : α} {i : ι} (h : e ∈ (B.fill es i).entries) :
    B.place e = i := by
  induction es using List.reverseRecOn with
  | nil => simp at h
  | append_singleton es f ih =>
    by_cases hi : i = B.place f
    · subst hi
      rw [fill_concat_self] at h
      obtain rfl | h := Multiset.mem_cons.mp (Multiset.mem_of_le (B.putIn_entries_le _ f) h)
      · rfl
      · exact ih h
    · rw [fill_concat_of_ne _ _ _ hi] at h
      exact ih h

theorem sum_put_le [Fintype ι] (bins : ι → Bin τ α) (e : α) :
    ∑ i, (B.put bins e i).entries ≤ e ::ₘ ∑ i, (bins i).entries := by
  have hput : ∀ i, (B.put bins e i).entries =
      Function.update (fun i => (bins i).entries) (B.place e) (B.putIn (bins (B.place e)) e).entries
        i := by
    intro i
    simp only [put, Function.update_apply]
    split <;> rfl
  calc ∑ i, (B.put bins e i).entries
      = (B.putIn (bins (B.place e)) e).entries + ∑ i ∈ Finset.univ \ {B.place e},
        (bins i).entries := by
        rw [Finset.sum_congr rfl fun i _ => hput i, Finset.sum_update_of_mem (Finset.mem_univ _)]
    _ ≤ e ::ₘ (bins (B.place e)).entries + ∑ i ∈ Finset.univ \ {B.place e}, (bins i).entries :=
        add_le_add_left (B.putIn_entries_le _ e) _
    _ = e ::ₘ ∑ i, (bins i).entries := by
        rw [Multiset.cons_add, Finset.sdiff_singleton_eq_erase,
          Finset.add_sum_erase _ (fun i => (bins i).entries) (Finset.mem_univ _)]

theorem sum_fill_le [Fintype ι] (es : List α) : ∑ i, (B.fill es i).entries ≤ (es : Multiset α) := by
  induction es using List.reverseRecOn with
  | nil => simp
  | append_singleton es e ih =>
    rw [fill_concat]
    apply (B.sum_put_le _ e).trans
    rw [← Multiset.coe_add, Multiset.coe_singleton, add_comm, Multiset.singleton_add]
    exact Multiset.cons_le_cons e ih

theorem live_le [Fintype ι] (now : τ) (es : List α) : B.live now (B.fill es) ≤ (es : Multiset α) := by
  apply le_trans _ (B.sum_fill_le es)
  apply Finset.sum_le_sum
  intro i _
  split
  · exact Multiset.zero_le _
  · exact le_rfl

theorem mem_live_fill [Fintype ι] {now : τ} {es : List α} {e : α} :
    e ∈ B.live now (B.fill es) ↔
      B.stale now (B.fill es (B.place e)).start = false ∧ e ∈ (B.fill es (B.place e)).entries := by
  rw [mem_live]
  constructor
  · rintro ⟨i, hfresh, he⟩
    rw [B.place_of_mem he]
    exact ⟨hfresh, he⟩
  · intro h
    exact ⟨B.place e, h⟩

theorem opened_cases (es : List α) (e : α) :
    (B.stale (B.time e) (B.fill es (B.place e)).start = true ∧ B.opened es e = B.time e) ∨
      (B.stale (B.time e) (B.fill es (B.place e)).start = false ∧
        B.opened es e = (B.fill es (B.place e)).start) := by
  unfold opened putIn
  split
  · next h => exact .inl ⟨h, rfl⟩
  · next h => exact .inr ⟨by simpa using h, rfl⟩

theorem start_cases (es : List α) (i : ι) :
    (B.fill es i).start = B.blank ∨ ∃ f ∈ es, B.place f = i ∧ (B.fill es i).start = B.time f := by
  induction es using List.reverseRecOn with
  | nil => exact .inl rfl
  | append_singleton es e ih =>
    have hold : (B.fill es i).start = B.blank ∨
        ∃ f ∈ es ++ [e], B.place f = i ∧ (B.fill es i).start = B.time f := by
      apply ih.imp_right
      rintro ⟨f, hf, h⟩
      exact ⟨f, List.mem_append_left _ hf, h⟩
    by_cases hi : i = B.place e
    · subst hi
      rw [fill_concat_self]
      obtain ⟨-, h⟩ | ⟨-, h⟩ := B.opened_cases es e
      · exact .inr ⟨e, by simp, rfl, h⟩
      · rw [opened] at h
        rw [h]
        exact hold
    · rw [fill_concat_of_ne _ _ _ hi]
      exact hold

theorem start_eq_opened (es : List α) (i : ι) :
    (B.fill es i).start = B.blank ∨
      ∃ p e, p ++ [e] <+: es ∧ B.place e = i ∧ (B.fill es i).start = B.opened p e := by
  induction es using List.reverseRecOn with
  | nil => exact .inl rfl
  | append_singleton es e ih =>
    by_cases hi : i = B.place e
    · subst hi
      rw [fill_concat_self]
      exact .inr ⟨es, e, List.prefix_rfl, rfl, rfl⟩
    · rw [fill_concat_of_ne _ _ _ hi]
      apply ih.imp_right
      rintro ⟨p, f, hp, h⟩
      exact ⟨p, f, hp.trans (List.prefix_append _ _), h⟩

theorem opened_eq (es : List α) (e : α) :
    ∃ f ∈ es ++ [e], B.place f = B.place e ∧ B.opened es e = B.time f := by
  obtain ⟨-, h⟩ | ⟨hfresh, h⟩ := B.opened_cases es e
  · exact ⟨e, by simp, rfl, h⟩
  · obtain hblank | ⟨f, hf, hplace, hstart⟩ := B.start_cases es (B.place e)
    · rw [hblank, B.stale_blank] at hfresh
      cases hfresh
    · exact ⟨f, List.mem_append_left _ hf, hplace, h.trans hstart⟩

section Order

variable [Preorder τ] {es : List α}

theorem opened_le {e : α} (h : B.InOrder (es ++ [e])) : B.opened es e ≤ B.time e := by
  obtain ⟨f, hf, -, hopen⟩ := B.opened_eq es e
  rw [hopen]
  exact h.le_last hf

theorem start_le (hes : B.InOrder es) {e : α} {i : ι} (he : e ∈ (B.fill es i).entries) :
    (B.fill es i).start ≤ B.time e := by
  induction es using List.reverseRecOn generalizing e with
  | nil => simp at he
  | append_singleton es f ih =>
    by_cases hi : i = B.place f
    · subst hi
      have hopen := B.opened_le hes
      have hstep := B.opened_cases es f
      rw [opened] at hopen hstep
      rw [fill_concat_self] at he ⊢
      obtain rfl | hold := Multiset.mem_cons.mp (Multiset.mem_of_le (B.putIn_entries_le _ f) he)
      · exact hopen
      · obtain ⟨hstale, -⟩ | ⟨-, h⟩ := hstep
        · -- the bin was emptied, so the new entry is all it holds
          rw [putIn, if_pos hstale, Multiset.mem_singleton] at he
          rw [he]
          exact hopen
        · rw [h]
          exact ih hes.of_append hold
    · rw [fill_concat_of_ne _ _ _ hi] at he ⊢
      exact ih hes.of_append he

variable (hmono : ∀ t t' s, t ≤ t' → B.stale t s = true → B.stale t' s = true)
include hmono

theorem kept {es es' : List α} {e : α} {now : τ} (hnow : ∀ f ∈ es', B.time f ≤ now)
    (hfresh : B.stale now (B.opened es e) = false) :
    (B.fill (es ++ [e] ++ es') (B.place e)).start = B.opened es e ∧
      e ∈ (B.fill (es ++ [e] ++ es') (B.place e)).entries := by
  induction es' using List.reverseRecOn with
  | nil =>
    rw [List.append_nil, fill_concat_self]
    exact ⟨rfl, B.mem_putIn _ e⟩
  | append_singleton es' f ih =>
    obtain ⟨hstart, hmem⟩ := ih fun g hg => hnow g (List.mem_append_left _ hg)
    rw [← List.append_assoc]
    by_cases hi : B.place e = B.place f
    · rw [hi] at hstart hmem ⊢
      have hkeep : ¬ B.stale (B.time f) (B.fill (es ++ [e] ++ es') (B.place f)).start = true := by
        intro hstale
        rw [hstart] at hstale
        rw [hmono _ _ _ (hnow f (by simp)) hstale] at hfresh
        cases hfresh
      rw [fill_concat_self, putIn, if_neg hkeep]
      exact ⟨hstart, Multiset.mem_cons_of_mem hmem⟩
    · rw [fill_concat_of_ne _ _ _ hi]
      exact ⟨hstart, hmem⟩

theorem opened_eq_of_fresh {p q : List α} {e f : α} (hplace : B.place f = B.place e)
    (hle : ∀ g ∈ q, B.time g ≤ B.time f) (hfresh : B.stale (B.time f) (B.opened p e) = false) :
    B.opened (p ++ [e] ++ q) f = B.opened p e := by
  obtain ⟨hstart, -⟩ := B.kept hmono hle hfresh
  rw [← hplace] at hstart
  obtain ⟨hstale, -⟩ | ⟨-, h⟩ := B.opened_cases (p ++ [e] ++ q) f
  · rw [hstart, hfresh] at hstale
    cases hstale
  · rw [h, hstart]

theorem keeps_recent_iff [Fintype ι] (recent : τ → α → Prop) (hes : B.InOrder es) :
    (∀ p, p <+: es → ∀ now, (∀ f ∈ p, B.time f ≤ now) → ∀ e ∈ p, recent now e →
      e ∈ B.live now (B.fill p)) ↔
      ∀ p e, p ++ [e] <+: es → ∀ now, B.time e ≤ now → recent now e →
        B.stale now (B.opened p e) = false := by
  constructor
  · intro h p e hp now hnow hrecent
    obtain ⟨q, rfl⟩ := hp
    have hlive := h _ (List.prefix_append _ q) now
      (fun f hf => (hes.of_append.le_last hf).trans hnow) e (by simp) hrecent
    rw [mem_live_fill, fill_concat_self] at hlive
    exact hlive.1
  · intro h p hp now hnow e he hrecent
    obtain ⟨p₁, p₂, rfl⟩ := List.append_of_mem he
    have hsplit : p₁ ++ e :: p₂ = p₁ ++ [e] ++ p₂ := by simp
    rw [hsplit] at hp hnow ⊢
    have hfresh := h p₁ e ((List.prefix_append _ p₂).trans hp) now (hnow e (by simp)) hrecent
    have hlater : ∀ f ∈ p₂, B.time f ≤ now := fun f hf => hnow f (List.mem_append_right _ hf)
    obtain ⟨hstart, hmem⟩ := B.kept hmono hlater hfresh
    rw [mem_live_fill, hstart]
    exact ⟨hfresh, hmem⟩

end Order
end Binning
end ReverseProxyLb.Lib
