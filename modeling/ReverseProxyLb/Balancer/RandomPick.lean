import ReverseProxyLb.Balancer.Series
import ReverseProxyLb.Lib.Draws
import ReverseProxyLb.Lib.Windows

/-! `WeightedRandom` and `P2C` are functions of the numbers that `rng.Intn` delivers; how
often a backend is returned is a count of these numbers. -/
namespace ReverseProxyLb
open Finset Lib

def World.drawing (w : World) (ds : List ℕ) : World := { w with draws := fun k => ds.getD k 0 }

variable {w : World} {l : List Backend}

def tickets (w : World) (l : List Backend) : List ℕ := l.map fun b => (effectiveWeight w b).toNat

theorem toNat_effectiveWeight (w : World) (b : Backend) :
    ((effectiveWeight w b).toNat : ℤ) = effectiveWeight w b :=
  Int.toNat_of_nonneg (effectiveWeight_pos w b).le

theorem sum_tickets (w : World) (l : List Backend) :
    ((tickets w l).sum : ℤ) = (l.map (effectiveWeight w)).sum := by
  rw [tickets, Nat.cast_list_sum, List.map_map]
  congr 1
  apply List.map_congr_left
  intro b _
  exact toNat_effectiveWeight w b

theorem randomScan_eq {r : ℕ} (hr : r < (tickets w l).sum) :
    randomScan w r l = l[ownerOf (tickets w l) r]? := by
  induction l generalizing r with
  | nil => simp [tickets] at hr
  | cons b l ih =>
    have hb := toNat_effectiveWeight w b
    have hsum : (tickets w (b :: l)).sum = (effectiveWeight w b).toNat + (tickets w l).sum := by
      simp [tickets]
    rw [hsum] at hr
    change (if (r : ℤ) - effectiveWeight w b < 0 then some b
      else randomScan w (r - effectiveWeight w b) l) =
      (b :: l)[ownerOf ((effectiveWeight w b).toNat :: tickets w l) r]?
    rw [ownerOf]
    by_cases hhere : r < (effectiveWeight w b).toNat
    · rw [if_pos hhere, if_pos (by omega)]
      rfl
    · rw [if_neg hhere, if_neg (by omega), List.getElem?_cons_succ, ← ih (by omega)]
      congr 1
      omega

theorem weightedRandom_eq (hne : w.getHealthy ≠ []) :
    ∃ b, w.getHealthy[ownerOf (tickets w w.getHealthy) (w.draws 0 % (tickets w w.getHealthy).sum)]? =
      some b ∧
      (weightedRandom w).1 = .backend b := by
  set S := (tickets w w.getHealthy).sum with hS
  have htotal : (w.getHealthy.map (effectiveWeight w)).sum.toNat = S := by
    rw [← sum_tickets, Int.toNat_natCast]
  have hpos : 0 < S := by
    obtain ⟨a, l, hl⟩ := List.exists_cons_of_ne_nil hne
    have := toNat_effectiveWeight w a
    have := effectiveWeight_pos w a
    rw [hS, hl, tickets, List.map_cons, List.sum_cons]
    omega
  have hplace : w.draws 0 % S < S := Nat.mod_lt _ hpos
  have howner : ownerOf (tickets w w.getHealthy) (w.draws 0 % S) < w.getHealthy.length := by
    simpa [tickets] using ownerOf_lt hplace
  have hscan : randomScan w.draw.2 (w.draws 0 % S : ℕ) w.getHealthy =
      w.getHealthy[ownerOf (tickets w w.getHealthy) (w.draws 0 % S)]? := randomScan_eq hplace
  rw [List.getElem?_eq_getElem howner] at hscan ⊢
  refine ⟨_, rfl, ?_⟩
  rw [weightedRandom, withHealthy, if_neg hne]
  dsimp only
  rw [htotal]
  change (reserveSelected (randomScan w.draw.2 (w.draws 0 % S : ℕ) w.getHealthy <|> _) _).1 = _
  rw [hscan]
  rfl

theorem card_filter_range (p : ℕ → Prop) [DecidablePred p] (n : ℕ) :
    #{r ∈ range n | p r} = (List.range n).countP fun r => p r := by
  change Multiset.card (Multiset.filter p (Multiset.range n)) = _
  rw [← Multiset.countP_eq_card_filter]
  rfl

/-- Of the numbers below the total weight as many lead to a backend as its effective
weight, and each is used up before the scan ends. -/
theorem weightedRandom_proportional (w : World) (hne : w.getHealthy ≠ []) (hl : w.getHealthy.Nodup) :
    let W := (w.getHealthy.map (effectiveWeight w)).sum
    0 < W ∧
      (∀ b ∈ w.getHealthy,
        (#{r : Fin W.toNat | (weightedRandom (w.drawing [r])).1 = .backend b} : ℤ) =
          effectiveWeight w b) ∧
      ∀ r : Fin W.toNat, (randomScan w r w.getHealthy).isSome := by
  intro W
  have hW : W.toNat = (tickets w w.getHealthy).sum := by
    rw [← Int.toNat_natCast (tickets w w.getHealthy).sum, sum_tickets]
  have howner : ∀ r < W.toNat, ownerOf (tickets w w.getHealthy) r < w.getHealthy.length := by
    intro r hr
    rw [hW] at hr
    simpa [tickets] using ownerOf_lt hr
  have hreturns : ∀ (r : Fin W.toNat) (i : ℕ) (b : Backend), w.getHealthy[i]? = some b →
      ((weightedRandom (w.drawing [r])).1 = .backend b ↔ ownerOf (tickets w w.getHealthy) r = i) := by
    intro r i b hi
    obtain ⟨a, ha, hpick⟩ := weightedRandom_eq (w := w.drawing [r]) hne
    have hdraw : (w.drawing [r]).draws 0 % (tickets w w.getHealthy).sum = r := by
      rw [← hW]
      exact Nat.mod_eq_of_lt r.isLt
    change w.getHealthy[ownerOf (tickets w w.getHealthy)
      ((w.drawing [r]).draws 0 % (tickets w w.getHealthy).sum)]? = some a at ha
    rw [hdraw] at ha
    rw [hpick, ← List.getElem?_inj (howner r r.isLt) hl, ha, hi, Picked.backend.injEq,
      Option.some.injEq]
  refine ⟨?_, ?_, ?_⟩
  · obtain ⟨a, l, ha⟩ := List.exists_cons_of_ne_nil hne
    have hsum := sum_tickets w l
    have := effectiveWeight_pos w a
    change 0 < (w.getHealthy.map (effectiveWeight w)).sum
    rw [ha, List.map_cons, List.sum_cons, ← hsum]
    omega
  · intro b hb
    obtain ⟨i, hi⟩ := List.mem_iff_getElem?.mp hb
    have hshare : (tickets w w.getHealthy).getD i 0 = (effectiveWeight w b).toNat := by
      rw [tickets, List.getD_eq_getElem?_getD, List.getElem?_map, hi]
      rfl
    simp only [fun r => hreturns r i b hi]
    rw [card_filter, ← Finset.sum_range fun r => if ownerOf (tickets w w.getHealthy) r = i then 1
      else 0,
      ← card_filter, hW, ← toNat_effectiveWeight, ← hshare, ← count_ownerOf, places,
        List.count_eq_countP,
      List.countP_map, ← List.range_eq_range', card_filter_range]
    rfl
  · intro r
    rw [randomScan_eq (lt_of_lt_of_eq r.isLt hW), List.getElem?_eq_getElem (howner r r.isLt)]
    rfl

/-- Three backends of weight 2, 0 and 1, with 4, 0 and 2 connections. -/
def threeLoads : World where
  backends := [{ addr := 0 }, { addr := 1 }, { addr := 2 }]
  weight := fun b => if b.addr = 0 then 2 else if b.addr = 1 then 0 else 1
  activeConns := fun b => if b.addr = 0 then 4 else if b.addr = 1 then 0 else 2

theorem weightedRandom_proportional_three :
    threeLoads.getHealthy ≠ [] ∧ threeLoads.getHealthy.Nodup ∧
      (#{r : Fin (threeLoads.getHealthy.map (effectiveWeight threeLoads)).sum.toNat |
        (weightedRandom (threeLoads.drawing [r])).1 = .backend { addr := 0 }} : ℤ) = 2 := by
  have hne : threeLoads.getHealthy ≠ [] := by decide
  have hl : threeLoads.getHealthy.Nodup := by decide
  refine ⟨hne, hl, ?_⟩
  exact (weightedRandom_proportional threeLoads hne hl).2.1 { addr := 0 } (by decide)

def rank (w : World) (b : Backend) : ℕ :=
  w.getHealthy.countP fun a => w.getActiveConns a ≤ w.getActiveConns b

def loads (w : World) (i : Fin w.getHealthy.length) : ℤ := w.getActiveConns (w.getHealthy.get i)

theorem loads_injective (hl : (w.getHealthy.map w.getActiveConns).Nodup) : (loads w).Injective := by
  intro i j hij
  have hget : (w.getHealthy.map w.getActiveConns)[i.val]? =
      (w.getHealthy.map w.getActiveConns)[j.val]? := by
    simpa [loads] using hij
  exact Fin.ext ((List.getElem?_inj (by simp) hl).mp hget)

theorem p2c_eq (hn : 2 ≤ w.getHealthy.length) (i : Fin w.getHealthy.length)
    (j : Fin (w.getHealthy.length - 1)) :
    (p2c (w.drawing [i, j])).1 = .backend (w.getHealthy.get (lesser (loads w) i (other i j))) := by
  have hne : w.getHealthy ≠ [] := List.ne_nil_of_length_pos (by omega)
  have hother : (if i.val ≤ j.val then j.val + 1 else j.val) = (other i j).val := rfl
  have hsame : (w.drawing [i, j]).getHealthy = w.getHealthy := rfl
  have hfirst : ((w.drawing [i, j]).intn w.getHealthy.length).1 = i := Nat.mod_eq_of_lt i.isLt
  have hsecond : (((w.drawing [i, j]).intn w.getHealthy.length).2.intn (w.getHealthy.length - 1)).1 =
      j :=
    Nat.mod_eq_of_lt j.isLt
  rw [p2c, withHealthy, hsame, if_neg hne, if_neg (by omega)]
  dsimp only
  rw [hfirst, hsecond, hother, List.getElem?_eq_getElem i.isLt,
    List.getElem?_eq_getElem (other i j).isLt]
  change Picked.backend (if loads w (other i j) < loads w i then _ else _) = _
  rw [lesser]
  split_ifs
  · rfl
  · rfl

theorem countP_eq_card_places (l : List Backend) (p : Backend → Prop) [DecidablePred p] :
    l.countP (fun a => p a) = #{q : Fin l.length | p (l.get q)} := by
  have hplaces : (List.finRange l.length).map l.get = l := List.map_get_finRange l
  change _ = Multiset.card (Multiset.filter _ (Multiset.ofList (List.finRange l.length)))
  rw [← Multiset.countP_eq_card_filter]
  conv_lhs => rw [← hplaces, List.countP_map]
  rfl

theorem rank_get (w : World) (p : Fin w.getHealthy.length) :
    rank w (w.getHealthy.get p) = #{q | loads w q ≤ loads w p} :=
  countP_eq_card_places w.getHealthy fun a =>
    w.getActiveConns a ≤ w.getActiveConns (w.getHealthy.get p)

theorem card_busier (w : World) (p : Fin w.getHealthy.length) :
    #{q | loads w p < loads w q} = w.getHealthy.length - rank w (w.getHealthy.get p) := by
  have hsplit := card_filter_add_card_filter_not (s := univ) fun q => loads w q ≤ loads w p
  simp only [not_le, card_univ, Fintype.card_fin] at hsplit
  rw [rank_get]
  omega

theorem rank_lt {p q : Fin w.getHealthy.length} (h : loads w p < loads w q) :
    rank w (w.getHealthy.get p) < rank w (w.getHealthy.get q) := by
  rw [rank_get, rank_get]
  apply card_lt_card
  rw [ssubset_iff_of_subset]
  · exact ⟨q, by simp, by simpa using h⟩
  · intro r
    simpa using fun hr => le_trans hr h.le

theorem exists_rank (hl : (w.getHealthy.map w.getActiveConns).Nodup) {k : ℕ} (hk : 1 ≤ k)
    (hkn : k ≤ w.getHealthy.length) : ∃ b ∈ w.getHealthy, rank w b = k := by
  have hinj : (fun p => rank w (w.getHealthy.get p)).Injective := by
    intro p q heq
    apply loads_injective hl
    rcases lt_trichotomy (loads w p) (loads w q) with h | h | h
    · exact absurd heq (rank_lt h).ne
    · exact h
    · exact absurd heq (rank_lt h).ne'
  have hsub : univ.image (fun p => rank w (w.getHealthy.get p)) ⊆ Icc 1 w.getHealthy.length := by
    intro r hr
    obtain ⟨p, -, rfl⟩ := mem_image.mp hr
    rw [mem_Icc]
    constructor
    · exact List.countP_pos_iff.mpr ⟨_, List.get_mem _ p, by simp⟩
    · exact List.countP_le_length
  have hall : univ.image (fun p => rank w (w.getHealthy.get p)) = Icc 1 w.getHealthy.length := by
    apply eq_of_subset_of_card_le hsub
    rw [card_image_of_injective _ hinj]
    simp
  have hmem : k ∈ univ.image fun p => rank w (w.getHealthy.get p) := by
    rw [hall, mem_Icc]
    exact ⟨hk, hkn⟩
  obtain ⟨p, -, hp⟩ := mem_image.mp hmem
  exact ⟨_, List.get_mem _ p, hp⟩

theorem card_p2c (hn : 2 ≤ w.getHealthy.length) (hl : (w.getHealthy.map w.getActiveConns).Nodup)
    (p : Fin w.getHealthy.length) :
    #{d : Fin w.getHealthy.length × Fin (w.getHealthy.length - 1) |
      (p2c (w.drawing [d.1, d.2])).1 = .backend (w.getHealthy.get p)} =
      2 * (w.getHealthy.length - rank w (w.getHealthy.get p)) := by
  have hget : w.getHealthy.get.Injective := List.nodup_iff_injective_get.mp (List.Nodup.of_map _ hl)
  simp only [p2c_eq hn, Picked.backend.injEq, hget.eq_iff]
  rw [card_kept _ (loads_injective hl), card_busier]

/-- Of the draws of two different backends `2 * (n - k)` return the one of rank `k`, so the
one with the most connections is never returned. -/
theorem p2c_distribution (w : World) (hn : 2 ≤ w.getHealthy.length)
    (hl : (w.getHealthy.map w.getActiveConns).Nodup) :
    let n := w.getHealthy.length
    (∀ k, 1 ≤ k → k ≤ n → ∃ b ∈ w.getHealthy, rank w b = k) ∧
      (∀ b ∈ w.getHealthy, #{d : Fin n × Fin (n - 1) | (p2c (w.drawing [d.1, d.2])).1 = .backend b} =
        2 * (n - rank w b)) ∧
      (∀ (i : Fin n) (j : Fin (n - 1)), w.getHealthy.get (other i j) ≠ w.getHealthy.get i ∧
        (p2c (w.drawing [i, j])).1 = .backend (w.getHealthy.get (lesser (loads w) i (other i j)))) ∧
      ∀ b ∈ w.getHealthy, (∀ a ∈ w.getHealthy, w.getActiveConns a ≤ w.getActiveConns b) →
        ∀ (i : Fin n) (j : Fin (n - 1)), (p2c (w.drawing [i, j])).1 ≠ .backend b := by
  intro n
  have hget : w.getHealthy.get.Injective := List.nodup_iff_injective_get.mp (List.Nodup.of_map _ hl)
  refine ⟨fun k hk hkn => exists_rank hl hk hkn, ?_, ?_, ?_⟩
  · intro b hb
    obtain ⟨p, rfl⟩ := List.mem_iff_get.mp hb
    exact card_p2c hn hl p
  · intro i j
    exact ⟨fun h => other_ne i j (hget h), p2c_eq hn i j⟩
  · intro b hb hmost i j hpick
    obtain ⟨p, rfl⟩ := List.mem_iff_get.mp hb
    have hrank : rank w (w.getHealthy.get p) = n :=
      List.countP_eq_length.mpr fun a ha => by simpa using hmost a ha
    have hzero := card_p2c hn hl p
    rw [hrank, Nat.sub_self, mul_zero, card_eq_zero] at hzero
    have hin : (i, j) ∈ ({d : Fin n × Fin (n - 1) |
        (p2c (w.drawing [d.1, d.2])).1 = .backend (w.getHealthy.get p)} : Finset _) := by
      simpa using hpick
    rw [hzero] at hin
    exact absurd hin (notMem_empty _)

theorem p2c_distribution_three :
    2 ≤ threeLoads.getHealthy.length ∧ (threeLoads.getHealthy.map threeLoads.getActiveConns).Nodup ∧
      rank threeLoads { addr := 2 } = 2 ∧
      #{d : Fin 3 × Fin 2 | (p2c (threeLoads.drawing [d.1, d.2])).1 = .backend { addr := 2 }} = 2 := by
  have hn : 2 ≤ threeLoads.getHealthy.length := by decide
  have hl : (threeLoads.getHealthy.map threeLoads.getActiveConns).Nodup := by decide
  refine ⟨hn, hl, by decide, ?_⟩
  exact (p2c_distribution threeLoads hn hl).2.1 { addr := 2 } (by decide)

end ReverseProxyLb
