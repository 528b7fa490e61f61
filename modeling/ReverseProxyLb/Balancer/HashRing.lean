import ReverseProxyLb.Balancer.RingMembers
import ReverseProxyLb.Lib.Circle

/-! The consistent hash over any hash function. Of the virtual nodes at one point the first
that is placed stays; a key belongs to the owner of the first point ahead of its hash. -/
namespace ReverseProxyLb
open Lib

variable {hash : String → UInt32} {c : ConsistentHash} {w : World} {key : String}

def virtualNodesBy (hash : String → UInt32) (c : ConsistentHash) (healthy : List Backend) :
    List (UInt32 × Backend) :=
  healthy.flatMap fun b =>
    (List.range c.replicas.toNat).map fun i => (hash (b.url ++ "#" ++ toString i), b)

def rebuildBy (hash : String → UInt32) (c : ConsistentHash) (healthy : List Backend) (sig : String) :
    Ring :=
  let ringMap := (virtualNodesBy hash c healthy).foldl placeNode []
  { ring := (ringMap.map Prod.fst).insertionSort (· ≤ ·)
    ringMap := ringMap
    ringKey := sig }

def currentRingBy (hash : String → UInt32) (c : ConsistentHash) (healthy : List Backend) (w : World) :
    Ring :=
  let sig := membershipSignature healthy
  if sig ≠ w.ring.ringKey ∨ w.ring.ring = [] then rebuildBy hash c healthy sig else w.ring

def loadCapacity (c : ConsistentHash) (healthy : List Backend) (w : World) : ℤ :=
  let total := 1 + (healthy.map w.getActiveConns).sum
  let avg : ℚ := total / healthy.length
  truncate (c.loadFactor * avg) + 1

def nextForKeyBy (hash : String → UInt32) (c : ConsistentHash) (key : String) : Selection :=
  withHealthy fun healthy w =>
    let r := currentRingBy hash c healthy w
    let w := { w with ring := r }
    if r.ring = [] then (.error errNoHealthy, w)
    else
      let points := (walkFrom (hash key) r.ring).map fun point => r.ringMap.lookup point
      reserveSelected (ringWalk w healthy (loadCapacity c healthy w) none [] points <|> healthy.head?)
        w

theorem lookup_placeNode_foldl (nodes ringMap : List (UInt32 × Backend)) (p : UInt32) :
    (nodes.foldl placeNode ringMap).lookup p = (ringMap.lookup p).or (nodes.lookup p) := by
  induction nodes generalizing ringMap with
  | nil => simp
  | cons q nodes ih =>
    obtain ⟨k, b⟩ := q
    rw [List.foldl_cons, ih]
    by_cases hk : (ringMap.lookup k).isSome
    · have hplace : placeNode ringMap (k, b) = ringMap := if_pos hk
      rw [hplace]
      by_cases hp : p = k
      · subst hp
        obtain ⟨x, hx⟩ := Option.isSome_iff_exists.mp hk
        simp [hx]
      · rw [List.lookup_cons, beq_false_of_ne hp]
    · have hplace : placeNode ringMap (k, b) = ringMap ++ [(k, b)] := if_neg hk
      rw [hplace, List.lookup_append]
      by_cases hp : p = k
      · subst hp
        simp
      · have hbeq := beq_false_of_ne hp
        simp [List.lookup_cons, hbeq]

theorem placeNode_foldl_nodup (nodes : List (UInt32 × Backend)) {ringMap : List (UInt32 × Backend)}
    (h : (ringMap.map Prod.fst).Nodup) :
    ((nodes.foldl placeNode ringMap).map Prod.fst).Nodup := by
  induction nodes generalizing ringMap with
  | nil => exact h
  | cons q nodes ih =>
    rw [List.foldl_cons]
    apply ih
    unfold placeNode
    split_ifs with hq
    · exact h
    · rw [List.map_append, List.nodup_append]
      refine ⟨h, by simp, ?_⟩
      intro p hp p' hp' heq
      have hp'' : p' = q.1 := by simpa using hp'
      rw [heq, hp''] at hp
      obtain ⟨b, hb, -⟩ := lookup_of_mem_keys hp
      rw [hb] at hq
      exact hq rfl

section Rebuilt
variable {healthy : List Backend} {sig : String} {p : UInt32}

theorem rebuildBy_lookup : (rebuildBy hash c healthy sig).ringMap.lookup p =
    (virtualNodesBy hash c healthy).lookup p := lookup_placeNode_foldl _ [] p

theorem rebuildBy_sorted : (rebuildBy hash c healthy sig).ring.Pairwise (· < ·) := by
  have hkeys : ((virtualNodesBy hash c healthy).foldl placeNode []).map Prod.fst |>.Nodup :=
    placeNode_foldl_nodup _ List.nodup_nil
  have hnodup : (rebuildBy hash c healthy sig).ring.Nodup :=
    (List.perm_insertionSort _ _).nodup_iff.mpr hkeys
  have hsorted : (rebuildBy hash c healthy sig).ring.Pairwise (· ≤ ·) :=
    List.pairwise_insertionSort _ _
  apply (hsorted.and hnodup).imp
  intro p q hpq
  exact UInt32.lt_of_le_of_ne hpq.1 hpq.2

theorem rebuildBy_mem : p ∈ (rebuildBy hash c healthy sig).ring ↔
    ∃ b, (virtualNodesBy hash c healthy).lookup p = some b := by
  change p ∈ (((virtualNodesBy hash c healthy).foldl placeNode []).map Prod.fst).insertionSort
    (· ≤ ·) ↔ _
  have hlookup := lookup_placeNode_foldl (virtualNodesBy hash c healthy) [] p
  rw [List.lookup_nil, Option.none_or] at hlookup
  rw [List.mem_insertionSort, ← hlookup]
  constructor
  · intro hp
    obtain ⟨b, hb, -⟩ := lookup_of_mem_keys hp
    exact ⟨b, hb⟩
  · intro ⟨b, hb⟩
    obtain ⟨l₁, l₂, hsplit, -⟩ := List.lookup_eq_some_iff.mp hb
    rw [hsplit]
    exact List.mem_map_of_mem (List.mem_append_right l₁ List.mem_cons_self)

theorem mem_of_lookup_virtualNodesBy {b : Backend}
    (h : (virtualNodesBy hash c healthy).lookup p = some b) :
    b ∈ healthy := by
  obtain ⟨l₁, l₂, hsplit, -⟩ := List.lookup_eq_some_iff.mp h
  have hnode : (p, b) ∈ virtualNodesBy hash c healthy := by simp [hsplit]
  obtain ⟨b', hb', hi⟩ := List.mem_flatMap.mp hnode
  obtain ⟨i, -, he⟩ := List.mem_map.mp hi
  exact (Prod.mk.inj he).2 ▸ hb'

theorem rebuildBy_ne_nil (hash : String → UInt32) (c : ConsistentHash) (sig : String)
    (hne : healthy ≠ []) :
    (rebuildBy hash c healthy sig).ring ≠ [] := by
  obtain ⟨b, rest, rfl⟩ := List.exists_cons_of_ne_nil hne
  have hpos : 0 < c.replicas.toNat := by
    have := c.replicas_pos
    omega
  have hfirst : ∃ x,
      (virtualNodesBy hash c (b :: rest)).lookup (hash (b.url ++ "#" ++ toString 0)) = some x := by
    obtain ⟨n, hn⟩ := Nat.exists_eq_succ_of_ne_zero hpos.ne'
    refine ⟨b, ?_⟩
    rw [virtualNodesBy, List.flatMap_cons, hn, List.range_succ_eq_map]
    simp
  exact List.ne_nil_of_mem (rebuildBy_mem.mpr hfirst)

end Rebuilt

/-- The ring that a call uses is the one built for the healthy list: it was built for it,
or the call builds it. -/
def OwnRing (hash : String → UInt32) (c : ConsistentHash) (w : World) : Prop :=
  currentRingBy hash c w.getHealthy w =
    rebuildBy hash c w.getHealthy (membershipSignature w.getHealthy)

def ownersFrom (hash : String → UInt32) (c : ConsistentHash) (key : String) (healthy : List Backend) :
    List Backend :=
  (clockwise (hash key) (rebuildBy hash c healthy (membershipSignature healthy)).ring).filterMap
    fun p => (virtualNodesBy hash c healthy).lookup p

theorem mem_of_mem_ownersFrom {healthy : List Backend} {b : Backend}
    (h : b ∈ ownersFrom hash c key healthy) :
    b ∈ healthy := by
  obtain ⟨p, -, hp⟩ := List.mem_filterMap.mp h
  exact mem_of_lookup_virtualNodesBy hp

theorem map_eq_map_some
    {α β : Type*} {f : α → Option β} {l : List α} (h : ∀ a ∈ l, ∃ b, f a = some b) :
    l.map f = (l.filterMap f).map some := by
  induction l with
  | nil => rfl
  | cons a l ih =>
    obtain ⟨b, hb⟩ := h a (List.mem_cons_self ..)
    rw [List.map_cons, List.filterMap_cons, hb, List.map_cons,
      ih fun x hx => h x (List.mem_cons_of_mem _ hx)]

theorem ringWalk_eq {healthy owners seen : List Backend} {capacity : ℤ} {fallback : Option Backend}
    (howners : ∀ b ∈ owners, b ∈ healthy) (hseen : ∀ b ∈ seen, capacity ≤ w.getActiveConns b) :
    ringWalk w healthy capacity fallback seen (owners.map some) =
      (owners.find? fun b => w.getActiveConns b < capacity).or (fallback.or owners.head?) := by
  induction owners generalizing fallback seen with
  | nil => simp [ringWalk]
  | cons b owners ih =>
    have hb := howners b (List.mem_cons_self ..)
    have hrest : ∀ x ∈ owners, x ∈ healthy := fun x hx => howners x (List.mem_cons_of_mem _ hx)
    rw [List.map_cons, ringWalk, List.find?_cons]
    by_cases hroom : w.getActiveConns b < capacity
    · have hnew : b ∉ seen := fun hm => absurd (hseen b hm) (not_le.mpr hroom)
      simp [hb, hnew, hroom]
    · have hfall : (fallback <|> some b).or owners.head? = fallback.or (some b) := by
        cases fallback <;> rfl
      by_cases hold : b ∈ seen
      · rw [if_pos (.inr hold), ih hrest hseen, hfall]
        simp [hroom]
      · have hseen' : ∀ x ∈ b :: seen, capacity ≤ w.getActiveConns x := by
          simp only [List.mem_cons, forall_eq_or_imp]
          exact ⟨not_lt.mp hroom, hseen⟩
        rw [if_neg (by simp [hb, hold]), if_neg hroom, ih hrest hseen', hfall]
        simp [hroom]

def boundedPick (hash : String → UInt32) (c : ConsistentHash) (key : String) (w : World) :
    Option Backend :=
  ((ownersFrom hash c key w.getHealthy).find? fun b =>
    w.getActiveConns b < loadCapacity c w.getHealthy w).or (ownersFrom hash c key w.getHealthy).head?

theorem ownersFrom_ne_nil (hash : String → UInt32) (c : ConsistentHash) (key : String)
    {healthy : List Backend} (hne : healthy ≠ []) : ownersFrom hash c key healthy ≠ [] := by
  obtain ⟨p, hp⟩ := List.exists_mem_of_ne_nil _
    (rebuildBy_ne_nil hash c (membershipSignature healthy) hne)
  obtain ⟨b, hb⟩ := rebuildBy_mem.mp hp
  have hmem : b ∈ ownersFrom hash c key healthy :=
    List.mem_filterMap.mpr ⟨p, mem_clockwise.mpr hp, hb⟩
  exact List.ne_nil_of_mem hmem

theorem exists_boundedPick (hash : String → UInt32) (c : ConsistentHash) (key : String)
    (hne : w.getHealthy ≠ []) : ∃ b, boundedPick hash c key w = some b := by
  obtain ⟨b, rest, hb⟩ := List.exists_cons_of_ne_nil (ownersFrom_ne_nil hash c key hne)
  rw [boundedPick, hb, List.head?_cons]
  exact Option.isSome_iff_exists.mp (by simp)

theorem ring_points_eq (hash : String → UInt32) (c : ConsistentHash) (key : String)
    (healthy : List Backend) :
    ((walkFrom (hash key) (rebuildBy hash c healthy (membershipSignature healthy)).ring).map fun p =>
      (rebuildBy hash c healthy (membershipSignature healthy)).ringMap.lookup p) =
      (ownersFrom hash c key healthy).map some := by
  simp only [walkFrom_eq_clockwise rebuildBy_sorted, rebuildBy_lookup]
  apply map_eq_map_some
  intro p hp
  exact rebuildBy_mem.mp (mem_clockwise.mp hp)

theorem nextForKeyBy_eq (hne : w.getHealthy ≠ []) (hring : OwnRing hash c w) :
    nextForKeyBy hash c key w = reserveSelected (boundedPick hash c key w)
      { w with ring := rebuildBy hash c w.getHealthy (membershipSignature w.getHealthy) } := by
  obtain ⟨b, hb⟩ := exists_boundedPick hash c key hne
  unfold nextForKeyBy withHealthy
  rw [if_neg hne]
  dsimp only
  rw [hring, if_neg (rebuildBy_ne_nil hash c _ hne), ring_points_eq,
    ringWalk_eq (fun _ => mem_of_mem_ownersFrom) (by simp), Option.none_or]
  change reserveSelected (boundedPick hash c key w <|> w.getHealthy.head?) _ = _
  rw [hb]
  rfl

theorem head_ownersFrom_iff {healthy : List Backend} {x : Backend} :
    (ownersFrom hash c key healthy).head? = some x ↔
      ∃ p, (clockwise (hash key) (rebuildBy hash c healthy (membershipSignature healthy)).ring).head? =
        some p ∧
        (virtualNodesBy hash c healthy).lookup p = some x := by
  have hmap : ((clockwise (hash key) (rebuildBy hash c healthy (membershipSignature healthy)).ring).map
      fun p => (virtualNodesBy hash c healthy).lookup p) =
        (ownersFrom hash c key healthy).map some := by
    apply map_eq_map_some
    intro p hp
    exact rebuildBy_mem.mp (mem_clockwise.mp hp)
  have hhead := congrArg List.head? hmap
  rw [List.head?_map, List.head?_map] at hhead
  cases hp :
    (clockwise (hash key) (rebuildBy hash c healthy (membershipSignature healthy)).ring).head? with
  | none =>
    rw [hp] at hhead
    simp at hhead
    simp [hhead]
  | some p =>
    rw [hp] at hhead
    cases ho : (ownersFrom hash c key healthy).head? with
    | none =>
      rw [ho] at hhead
      cases hhead
    | some y =>
      rw [ho] at hhead
      simp only [Option.map_some, Option.some.injEq] at hhead
      simp [hhead]

theorem head_ownersFrom_of_least {healthy : List Backend} {x : Backend} {p : UInt32}
    (hp : (virtualNodesBy hash c healthy).lookup p = some x)
    (hleast : ∀ n ∈ virtualNodesBy hash c healthy, p - hash key ≤ n.1 - hash key) :
    (ownersFrom hash c key healthy).head? = some x := by
  apply head_ownersFrom_iff.mpr
  refine ⟨p, head_clockwise_iff.mpr ⟨rebuildBy_mem.mpr ⟨x, hp⟩, ?_⟩, hp⟩
  intro q hq
  obtain ⟨y, hy⟩ := rebuildBy_mem.mp hq
  obtain ⟨n₁, n₂, hsplit, -⟩ := List.lookup_eq_some_iff.mp hy
  exact hleast (q, y) (by simp [hsplit])

theorem truncate_nonneg {x : ℚ} (h : 0 ≤ x) : 0 ≤ truncate x :=
  Int.tdiv_nonneg (Rat.num_nonneg.mpr h) (Int.natCast_nonneg _)

def Idle (w : World) : Prop := ∀ b ∈ w.getHealthy, w.activeConns b = 0

theorem Idle.getActiveConns (h : Idle w) {b : Backend} (hb : b ∈ w.getHealthy) :
    w.getActiveConns b = 0 := by
  rw [World.getActiveConns, h b hb]
  rfl

theorem boundedPick_of_head {x : Backend} (h : (ownersFrom hash c key w.getHealthy).head? = some x)
    (hroom : w.getActiveConns x < loadCapacity c w.getHealthy w) :
    boundedPick hash c key w = some x := by
  obtain ⟨rest, hrest⟩ := List.head?_eq_some_iff.mp h
  rw [boundedPick, hrest, List.find?_cons, decide_eq_true hroom]
  rfl

theorem boundedPick_of_idle (hidle : Idle w) (hne : w.getHealthy ≠ []) :
    boundedPick hash c key w = (ownersFrom hash c key w.getHealthy).head? := by
  have hsum : (w.getHealthy.map w.getActiveConns).sum = 0 := by
    apply List.sum_eq_zero
    intro x hx
    obtain ⟨b, hb, rfl⟩ := List.mem_map.mp hx
    exact hidle.getActiveConns hb
  have hroom : 0 < loadCapacity c w.getHealthy w := by
    unfold loadCapacity
    rw [hsum]
    have hlf := c.loadFactor_gt
    have := truncate_nonneg
        (x := c.loadFactor * (((1 + 0 : ℤ) : ℚ) / (w.getHealthy.length : ℚ))) (by positivity)
    dsimp only
    omega
  obtain ⟨x, rest, howners⟩ := List.exists_cons_of_ne_nil (ownersFrom_ne_nil hash c key hne)
  have hx : (ownersFrom hash c key w.getHealthy).head? = some x := by
    rw [howners]
    rfl
  rw [hx, boundedPick_of_head hx]
  rw [hidle.getActiveConns (mem_of_mem_ownersFrom (List.mem_of_mem_head? hx))]
  exact hroom

theorem virtualNodesBy_append (l₁ l₂ : List Backend) :
    virtualNodesBy hash c (l₁ ++ l₂) = virtualNodesBy hash c l₁ ++ virtualNodesBy hash c l₂ := by
  simp [virtualNodesBy]

variable {l₁ l₂ : List Backend} {b x : Backend} {p : UInt32}

theorem lookup_without (h : (virtualNodesBy hash c (l₁ ++ b :: l₂)).lookup p = some x) (hx : x ≠ b) :
    (virtualNodesBy hash c (l₁ ++ l₂)).lookup p = some x := by
  rw [← List.singleton_append, virtualNodesBy_append, virtualNodesBy_append, List.lookup_append,
    List.lookup_append] at h
  rw [virtualNodesBy_append, List.lookup_append]
  cases hb : (virtualNodesBy hash c [b]).lookup p with
  | none =>
    rwa [hb, Option.none_or] at h
  | some y =>
    obtain rfl : y = b := List.mem_singleton.mp (mem_of_lookup_virtualNodesBy hb)
    rw [hb] at h
    cases h₁ : (virtualNodesBy hash c l₁).lookup p with
    | none =>
      rw [h₁] at h
      exact absurd (Option.some.inj h).symm hx
    | some z =>
      rw [h₁] at h
      simpa using h

theorem lookup_with (h : (virtualNodesBy hash c (l₁ ++ l₂)).lookup p = some x) :
    ∃ y, (virtualNodesBy hash c (l₁ ++ b :: l₂)).lookup p = some y := by
  rw [virtualNodesBy_append, List.lookup_append] at h
  rw [← List.singleton_append, virtualNodesBy_append, virtualNodesBy_append, List.lookup_append,
    List.lookup_append]
  cases h₁ : (virtualNodesBy hash c l₁).lookup p with
  | some y => exact ⟨y, by simp⟩
  | none =>
    rw [h₁, Option.none_or] at h
    cases hb : (virtualNodesBy hash c [b]).lookup p with
    | some y => exact ⟨y, by simp⟩
    | none => exact ⟨x, by simpa using h⟩

theorem head_ownersFrom_without (h : (ownersFrom hash c key (l₁ ++ b :: l₂)).head? = some x)
    (hx : x ≠ b) :
    (ownersFrom hash c key (l₁ ++ l₂)).head? = some x := by
  obtain ⟨p, hp, howner⟩ := head_ownersFrom_iff.mp h
  have hkeeps := lookup_without howner hx
  apply head_ownersFrom_iff.mpr
  refine ⟨p, head_clockwise_of_subset hp (rebuildBy_mem.mpr ⟨x, hkeeps⟩) ?_, hkeeps⟩
  intro q hq
  obtain ⟨y, hy⟩ := rebuildBy_mem.mp hq
  exact rebuildBy_mem.mpr (lookup_with hy)

/-- With no requests in flight: taking a backend from the list leaves every key that was not its
own where it was, and putting it in moves keys only to it. Virtual nodes may collide. -/
theorem one_backend_moves_only_its_keys (hash : String → UInt32) (c : ConsistentHash) (key : String)
    (w w' : World) (l₁ l₂ : List Backend) (b : Backend) (hwith : w.getHealthy = l₁ ++ b :: l₂)
    (hwithout : w'.getHealthy = l₁ ++ l₂) (hring : OwnRing hash c w) (hring' : OwnRing hash c w')
    (hidle : Idle w) (hidle' : Idle w') :
    (∃ x, (nextForKeyBy hash c key w).1 = .backend x ∧
      (x ≠ b → (nextForKeyBy hash c key w').1 = .backend x)) ∧
    ∀ y, (nextForKeyBy hash c key w').1 = .backend y →
      (nextForKeyBy hash c key w).1 = .backend y ∨ (nextForKeyBy hash c key w).1 = .backend b := by
  have hne : w.getHealthy ≠ [] := by simp [hwith]
  obtain ⟨x, hx⟩ := exists_boundedPick hash c key hne
  have hfull : (nextForKeyBy hash c key w).1 = .backend x := by
    rw [nextForKeyBy_eq hne hring, hx]
    rfl
  have hstays : x ≠ b → (nextForKeyBy hash c key w').1 = .backend x := by
    intro hxb
    rw [boundedPick_of_idle hidle hne, hwith] at hx
    have hx' := head_ownersFrom_without hx hxb
    have hne' : w'.getHealthy ≠ [] := by
      intro he
      have hmem := mem_of_mem_ownersFrom (List.mem_of_mem_head? hx')
      rw [← hwithout, he] at hmem
      cases hmem
    rw [← hwithout] at hx'
    rw [nextForKeyBy_eq hne' hring', boundedPick_of_idle hidle' hne', hx']
    rfl
  refine ⟨⟨x, hfull, hstays⟩, ?_⟩
  intro y hy
  by_cases hxb : x = b
  · right
    rw [hfull, hxb]
  · left
    rw [hfull, ← hstays hxb, hy]

theorem ownRing_of_nil (h : w.ring.ring = []) : OwnRing hash c w := if_pos (.inr h)

def ringA : Backend := { addr := 0, url := "http://a" }
def ringB : Backend := { addr := 1, url := "http://b" }

/-- Two backends whose virtual nodes all collide: the first keeps its keys. -/
theorem one_backend_moves_only_its_keys_collided :
    OwnRing (fun _ => 0) (newConsistentHash 2 2) { backends := [ringA, ringB] } ∧
      OwnRing (fun _ => 0) (newConsistentHash 2 2) { backends := [ringA] } ∧
      Idle { backends := [ringA, ringB] } ∧ Idle { backends := [ringA] } ∧
      (nextForKeyBy (fun _ => 0) (newConsistentHash 2 2) "key" { backends := [ringA] }).1 =
        .backend ringA := by
  have hring : OwnRing (fun _ => 0) (newConsistentHash 2 2) { backends := [ringA, ringB] } :=
    ownRing_of_nil rfl
  have hring' : OwnRing (fun _ => 0) (newConsistentHash 2 2) { backends := [ringA] } :=
    ownRing_of_nil rfl
  have hidle : Idle { backends := [ringA, ringB] } := fun _ _ => rfl
  have hidle' : Idle { backends := [ringA] } := fun _ _ => rfl
  obtain ⟨⟨x, hx, hstays⟩, -⟩ :=
    one_backend_moves_only_its_keys (fun _ => 0) (newConsistentHash 2 2) "key"
    { backends := [ringA, ringB] } { backends := [ringA] } [ringA] [] ringB rfl rfl hring hring' hidle
      hidle'
  have hhead : (ownersFrom (fun _ => 0) (newConsistentHash 2 2) "key" [ringA, ringB]).head? =
      some ringA :=
    head_ownersFrom_of_least (p := 0) (by decide +kernel) (by decide +kernel)
  have hfull :
      (nextForKeyBy (fun _ => 0) (newConsistentHash 2 2) "key" { backends := [ringA, ringB] }).1 =
      .backend ringA := by
    rw [nextForKeyBy_eq (by decide) hring, boundedPick_of_idle hidle (by decide)]
    change (reserveSelected (ownersFrom _ _ _ [ringA, ringB]).head? _).1 = _
    rw [hhead]
    rfl
  obtain rfl : x = ringA := Picked.backend.inj (hx.symm.trans hfull)
  exact ⟨hring, hring', hidle, hidle', hstays (by decide)⟩

end ReverseProxyLb
