import ReverseProxyLb.Balancer.Nesting
import ReverseProxyLb.Balancer.Weights
import ReverseProxyLb.Lib.Greedy

/-! Over a base without keys the base selects if the filters leave all healthy backends, and
otherwise the least connected of those left is taken. -/
namespace ReverseProxyLb
open Lib World

def placed (alg : Algorithm) (left : List Backend) : Selection := fun w =>
  if left = w.getHealthy then alg.next w else statelessPick left w

section Keyed
variable {w : World} {candidates : List Backend}

theorem keyedSelectFrom_picker {B : Balancer} {sp : SubsetPicker} {key : String}
    (hpicker : B.subsetPicker = some sp) (hselect : B.select key w = sp.pickFromKey w.getHealthy key w)
    (hs : candidates.Sublist w.getHealthy) (hne : candidates ≠ []) :
    keyedSelectFrom B candidates key w = sp.pickFromKey candidates key w := by
  by_cases hsame : sameSet w.getHealthy candidates
  · rw [eq_of_sameSet hs hsame] at hne ⊢
    rw [keyedSelectFrom_getHealthy _ _ hne, hselect]
  · unfold keyedSelectFrom
    rw [if_neg hne, if_neg hsame, hpicker]

theorem keyedSelectFrom_base {alg : Algorithm} (hbase : alg.nextForKey = none)
    (hs : candidates.Sublist w.getHealthy) (hne : candidates ≠ []) (key : String) :
    keyedSelectFrom (Stack.base alg).balancer candidates key w = placed alg candidates w := by
  unfold keyedSelectFrom placed
  rw [if_neg hne]
  simp only [Stack.balancer, hbase]
  by_cases hall : candidates = w.getHealthy
  · rw [if_pos hall, hall, if_pos (sameSet_self _)]
  · rw [if_neg hall, if_neg fun hsame => hall (eq_of_sameSet hs hsame)]

theorem Stack.keyedSelectFrom_eq (st : Stack) (hbase : st.nesting.algorithm.nextForKey = none)
    (hs : candidates.Sublist w.getHealthy) (hne : candidates ≠ []) (key : String) :
    keyedSelectFrom st.balancer candidates key w =
      placed st.nesting.algorithm (st.eligibleFrom candidates) (st.nesting.settled w) := by
  induction st generalizing w candidates with
  | base alg => exact keyedSelectFrom_base hbase hs hne key
  | priorityTiers inner ih =>
    rw [keyedSelectFrom_picker rfl rfl hs hne]
    exact ih hbase ((PriorityTiers.eligibleFrom_sublist candidates).trans hs)
      (PriorityTiers.eligibleFrom_ne_nil hne)
  | zoneAware zone prefer inner ih =>
    rw [keyedSelectFrom_picker rfl rfl hs hne]
    exact ih hbase ((ZoneAware.eligibleFrom_sublist zone prefer candidates).trans hs)
      (ZoneAware.eligibleFrom_ne_nil hne)
  | slowStart addr window inner ih =>
    rw [keyedSelectFrom_picker rfl rfl hs hne]
    exact ih (w := SlowStart.observeNow addr w) hbase hs hne

end Keyed

section Deployment
variable {d : Deployment} {w : World}

def Deployment.eligible (d : Deployment) (w : World) : List Backend :=
  d.stack.eligibleFrom (d.reinstated w).getHealthy

theorem Deployment.select_eq (hbase : d.nesting.algorithm.nextForKey = none)
    (hne : (d.reinstated w).getHealthy ≠ []) (key : String) :
    d.balancer.select key w = placed d.nesting.algorithm (d.eligible w) (d.nesting.settled w) := by
  unfold Deployment.eligible
  obtain ⟨outlier, stack⟩ := d
  cases outlier with
  | none =>
    have hne : w.getHealthy ≠ [] := hne
    change stack.balancer.select key w = _
    rw [← keyedSelectFrom_getHealthy stack.balancer key hne]
    exact stack.keyedSelectFrom_eq hbase (List.Sublist.refl _) hne key
  | some od =>
    exact stack.keyedSelectFrom_eq (w := OutlierDetection.reinstateNow 0 od w) hbase
      (List.Sublist.refl _) hne key

theorem Nesting.settled_fields (n : Nesting) (w : World) : (n.settled w).backends = w.backends ∧
    (n.settled w).weight = w.weight ∧ (n.settled w).current = w.current ∧
    (n.settled w).activeConns = w.activeConns := by
  induction n generalizing w with
  | base alg => exact ⟨rfl, rfl, rfl, rfl⟩
  | priorityTiers inner ih | zoneAware zone prefer inner ih => exact ih w
  | slowStart addr window inner ih => exact ih (SlowStart.observeNow addr w)
  | outlierDetection addr od inner ih =>
    obtain ⟨hbackends, hweight, hcurrent, hconns⟩ := ih (OutlierDetection.reinstateNow addr od w)
    cases addr <;> exact ⟨hbackends, hweight, hcurrent, hconns⟩

theorem Stack.settled_healthy (st : Stack) (w : World) :
    (st.nesting.settled w).healthy = w.healthy := by
  induction st generalizing w with
  | base alg => rfl
  | priorityTiers inner ih | zoneAware zone prefer inner ih => exact ih w
  | slowStart addr window inner ih => exact ih (SlowStart.observeNow addr w)

theorem Stack.eligibleFrom_ne_nil (st : Stack) {pool : List Backend} (h : pool ≠ []) :
    st.eligibleFrom pool ≠ [] := by
  induction st generalizing pool with
  | base alg => exact h
  | priorityTiers inner ih => exact ih (PriorityTiers.eligibleFrom_ne_nil h)
  | zoneAware zone prefer inner ih => exact ih (ZoneAware.eligibleFrom_ne_nil h)
  | slowStart addr window inner ih => exact ih h

theorem Deployment.settled_healthy (d : Deployment) (w : World) :
    (d.nesting.settled w).healthy = (d.reinstated w).healthy := by
  obtain ⟨outlier, stack⟩ := d
  cases outlier with
  | none => exact stack.settled_healthy w
  | some od => exact stack.settled_healthy (OutlierDetection.reinstateNow 0 od w)

theorem Deployment.settled_getHealthy (d : Deployment) (w : World) :
    (d.nesting.settled w).getHealthy = (d.reinstated w).getHealthy := by
  rw [getHealthy, getHealthy, d.settled_healthy, (d.nesting.settled_fields w).1, d.reinstated_backends]

theorem keyedSelectFrom_nil (inner : Balancer) (key : String) (w : World) :
    keyedSelectFrom inner [] key w = (.error errNoHealthy, w) := by
  unfold keyedSelectFrom
  rw [if_pos rfl]

theorem Stack.getHealthy_of_select (st : Stack) (hbase : st.nesting.algorithm.nextForKey = none)
    {key : String} {b : Backend} (hb : (st.balancer.select key w).1 = .backend b) :
    w.getHealthy ≠ [] := by
  intro hnil
  cases st with
  | base alg =>
    have hbase' : alg.nextForKey = none := hbase
    rw [Balancer.select_of_none (B := (Stack.base alg).balancer) hbase'] at hb
    have hmem := mem_of_settles (Algorithm.next_selects_always hbase' w).settles hb
    rw [hnil] at hmem
    cases hmem
  | priorityTiers inner =>
    change (keyedSelectFrom inner.balancer (PriorityTiers.eligibleFrom w.getHealthy) key w).1 = _ at hb
    rw [hnil] at hb
    change (keyedSelectFrom inner.balancer [] key w).1 = _ at hb
    rw [keyedSelectFrom_nil] at hb
    cases hb
  | zoneAware zone prefer inner =>
    change (keyedSelectFrom inner.balancer (ZoneAware.eligibleFrom zone prefer w.getHealthy) key w).1 =
      _ at hb
    rw [hnil, List.sublist_nil.mp (ZoneAware.eligibleFrom_sublist zone prefer []),
      keyedSelectFrom_nil] at hb
    cases hb
  | slowStart addr window inner =>
    change (keyedSelectFrom inner.balancer w.getHealthy key _).1 = _ at hb
    rw [hnil, keyedSelectFrom_nil] at hb
    cases hb

theorem Deployment.select_mem (hbase : d.nesting.algorithm.nextForKey = none) {key : String}
    {b : Backend} (hb : (d.balancer.select key w).1 = .backend b) : b ∈ d.eligible w := by
  have hne : (d.reinstated w).getHealthy ≠ [] := by
    obtain ⟨outlier, stack⟩ := d
    cases outlier with
    | none => exact stack.getHealthy_of_select hbase hb
    | some od =>
      intro hnil
      have hb : (keyedSelectFrom stack.balancer (OutlierDetection.reinstateNow 0 od w).getHealthy key
        (OutlierDetection.reinstateNow 0 od w)).1 = .backend b := hb
      have hnil : (OutlierDetection.reinstateNow 0 od w).getHealthy = [] := hnil
      rw [hnil, keyedSelectFrom_nil] at hb
      cases hb
  rw [Deployment.select_eq hbase hne] at hb
  unfold placed at hb
  split at hb
  · next hall =>
    rw [hall]
    exact mem_of_settles (Algorithm.next_selects_always hbase _).settles hb
  · have hleft : d.eligible w ≠ [] := d.stack.eligibleFrom_ne_nil hne
    exact mem_of_settles (statelessPick_contract hleft).settles hb

end Deployment

theorem statelessPick_least {left : List Backend} {w : World} {b : Backend} (hb : b ∈ left)
    (hleast : ∀ x, x ≠ b → w.getActiveConns b < w.getActiveConns x) :
    (statelessPick left w).1 = .backend b := by
  obtain ⟨best, rest, rfl⟩ := List.exists_cons_of_ne_nil (List.ne_nil_of_mem hb)
  obtain ⟨q, hq, -⟩ := scanMin_some w.getActiveConns (best, w.getActiveConns best) rest
  obtain ⟨hscore, hbest, hrest⟩ :=
    scanMin_some_least (p := (best, w.getActiveConns best)) w.getActiveConns rfl hq
  have hle : w.getActiveConns q.1 ≤ w.getActiveConns b := by
    rw [← hscore]
    rcases List.mem_cons.mp hb with rfl | hb
    · exact hbest
    · exact hrest b hb
  have hqb : q.1 = b := by
    by_contra hne
    exact absurd hle (not_le.mpr (hleast q.1 hne))
  change (reserveSelected
    ((scanMin w.getActiveConns (some (best, w.getActiveConns best)) rest).map Prod.fst) w).1 = _
  rw [hq, Option.map_some, hqb]
  rfl

theorem weightedRoundRobin_reaches {w : World} {b : Backend} (hb : b ∈ w.getHealthy)
    (hpos : 0 < w.getWeight b) (hlt : (shares w).sum < 2 ^ 32) :
    ∃ c : UInt32, ∀ w', SameFleet w w' → w'.current = c → (weightedRoundRobin w').1 = .backend b := by
  obtain ⟨i, hi⟩ := List.mem_iff_getElem?.mp hb
  have hsum : 0 < (shares w).sum := shares_sum_pos.mpr ⟨b, hb, hpos⟩
  -- the backend owns as many places of the line as its weight, so there is one
  have hcount : 0 < (places (ownerOf (shares w)) 0 (shares w).sum).count i := by
    rw [count_ownerOf, shares, List.getD_eq_getElem?_getD, List.getElem?_map, hi]
    simpa using hpos
  obtain ⟨r, hr, howner⟩ := List.mem_map.mp (List.count_pos_iff.mp hcount)
  rw [List.mem_range'_1] at hr
  refine ⟨UInt32.ofNat r, fun w' hsame hcur => ?_⟩
  obtain ⟨a, ha, hpick, -, -⟩ := weightedRoundRobin_rotates hsum hlt w' hsame
  have hnum : w'.current.toNat % (shares w).sum = r := by
    rw [hcur, UInt32.toNat_ofNat', Nat.mod_eq_of_lt (by omega), Nat.mod_eq_of_lt (by omega)]
  rw [hnum, howner, hi] at ha
  cases ha
  exact hpick

section Reaches
variable {d : Deployment} {w : World} {b : Backend}

def World.turned (w : World) (current : UInt32) (conns : Backend → Int32) : World :=
  { w with
    current := current
    activeConns := conns }

theorem reinstated_turned (d : Deployment) (w : World) (current : UInt32) (conns : Backend → Int32) :
    d.reinstated (w.turned current conns) = (d.reinstated w).turned current conns := by
  unfold Deployment.reinstated
  cases d.outlier <;> rfl

theorem eligible_turned (d : Deployment) (w : World) (current : UInt32) (conns : Backend → Int32) :
    d.eligible (w.turned current conns) = d.eligible w := by
  unfold Deployment.eligible
  rw [reinstated_turned]
  rfl

theorem settled_turned (d : Deployment) (w : World) (current : UInt32) (conns : Backend → Int32) :
    SameFleet (d.nesting.settled w) (d.nesting.settled (w.turned current conns)) := by
  obtain ⟨hbackends, hweight, -, -⟩ := d.nesting.settled_fields w
  obtain ⟨hbackends', hweight', -, -⟩ := d.nesting.settled_fields (w.turned current conns)
  refine ⟨hbackends'.trans hbackends.symm, ?_, hweight'.trans hweight.symm⟩
  rw [d.settled_healthy, d.settled_healthy, reinstated_turned]
  rfl

theorem Deployment.select_reaches (halg : d.nesting.algorithm = .weightedRoundRobin)
    (hb : b ∈ d.eligible w) (hpos : 0 < w.getWeight b)
    (hlt : ((d.reinstated w).getHealthy.map fun b => (w.getWeight b).toNat).sum < 2 ^ 32) :
    ∃ current conns, ∀ key, (d.balancer.select key (w.turned current conns)).1 = .backend b := by
  have hbase : d.nesting.algorithm.nextForKey = none := by
    rw [halg]
    rfl
  have hmem : b ∈ (d.reinstated w).getHealthy := (d.stack.eligibleFrom_sublist _).subset hb
  have hselect : ∀ current conns key, d.balancer.select key (w.turned current conns) =
      placed .weightedRoundRobin (d.eligible w) (d.nesting.settled (w.turned current conns)) := by
    intro current conns key
    have hne : (d.reinstated (w.turned current conns)).getHealthy ≠ [] := by
      rw [reinstated_turned]
      exact List.ne_nil_of_mem hmem
    rw [Deployment.select_eq hbase hne, eligible_turned, halg]
  have hsettled := d.settled_getHealthy w
  have hweight : (d.nesting.settled w).getWeight = w.getWeight := by
    funext x
    rw [World.getWeight, World.getWeight, (d.nesting.settled_fields w).2.1]
  by_cases hall : d.eligible w = (d.reinstated w).getHealthy
  · obtain ⟨c, hc⟩ :=
      weightedRoundRobin_reaches (w := d.nesting.settled w) (by rwa [hsettled]) (by rwa [hweight])
      (by rwa [shares, hsettled, hweight])
    refine ⟨c, w.activeConns, fun key => ?_⟩
    have hsame := settled_turned d w c w.activeConns
    rw [hselect, placed, if_pos (by rw [hsame.getHealthy, hsettled, hall])]
    exact hc _ hsame (d.nesting.settled_fields _).2.2.1
  · refine ⟨w.current, fun x => if x = b then 0 else 1, fun key => ?_⟩
    have hsame := settled_turned d w w.current fun x => if x = b then 0 else 1
    rw [hselect, placed, if_neg (by rw [hsame.getHealthy, hsettled]; exact hall)]
    apply statelessPick_least hb
    intro x hx
    rw [World.getActiveConns, World.getActiveConns, (d.nesting.settled_fields _).2.2.2]
    change (if b = b then (0 : Int32) else 1).toInt < (if x = b then (0 : Int32) else 1).toInt
    rw [if_pos rfl, if_neg hx]
    decide

end Reaches
end ReverseProxyLb
