import ReverseProxyLb.Balancer.Contract
import ReverseProxyLb.Lib.Delimited
import ReverseProxyLb.Lib.Threads

/-! `NextForKey` takes the healthy list first and the lock after it, and rebuilds the ring when
the URLs of the list are not those it was built for. Member and health changes may come in
between. -/
namespace ReverseProxyLb
open Lib World

theorem foldl_fields_toList (us : List String) (sig : String) :
    (us.foldl (fun sig u => sig ++ (u ++ "|")) sig).toList =
      sig.toList ++ us.flatMap fun u => u.toList ++ ['|'] := by
  induction us generalizing sig with
  | nil => simp
  | cons u us ih =>
    rw [List.foldl_cons, ih, List.flatMap_cons]
    simp

theorem eq_of_flatMap_fields_eq {us vs : List String} (hu : ∀ u ∈ us, '|' ∉ u.toList)
    (hv : ∀ v ∈ vs, '|' ∉ v.toList)
    (h : (us.flatMap fun u => u.toList ++ ['|']) = vs.flatMap fun v => v.toList ++ ['|']) :
    us = vs := by
  induction us generalizing vs with
  | nil =>
    cases vs with
    | nil => rfl
    | cons v vs => simp at h
  | cons u us ih =>
    cases vs with
    | nil => simp at h
    | cons v vs =>
      rw [List.flatMap_cons, List.flatMap_cons, List.append_assoc, List.append_assoc] at h
      obtain ⟨huv, hrest⟩ := eq_of_fields_eq (hu u (List.mem_cons_self ..))
        (hv v (List.mem_cons_self ..)) (separated_cons '|' _) (separated_cons '|' _) h
      have htail := ih (fun u hu' => hu u (List.mem_cons_of_mem _ hu'))
        (fun v hv' => hv v (List.mem_cons_of_mem _ hv')) (List.cons.inj hrest).2
      rw [String.toList_inj.mp huv, htail]

theorem perm_of_membershipSignature_eq {l l' : List Backend}
    (hl : ∀ b ∈ l, '|' ∉ b.url.toList) (hl' : ∀ b ∈ l', '|' ∉ b.url.toList)
    (h : membershipSignature l = membershipSignature l') :
    (l.map Backend.url).Perm (l'.map Backend.url) := by
  have hsorted : ∀ {l : List Backend}, (∀ b ∈ l, '|' ∉ b.url.toList) →
      ∀ u ∈ (l.map Backend.url).insertionSort (· ≤ ·), '|' ∉ u.toList := by
    intro l hl u hu
    obtain ⟨b, hb, rfl⟩ := List.mem_map.mp ((List.mem_insertionSort _).mp hu)
    exact hl b hb
  unfold membershipSignature at h
  have htext := congrArg String.toList h
  rw [foldl_fields_toList, foldl_fields_toList] at htext
  have heq := eq_of_flatMap_fields_eq (hsorted hl) (hsorted hl') (List.append_cancel_left htext)
  have hperm := (List.perm_insertionSort (· ≤ ·) (l.map Backend.url)).symm
  rw [heq] at hperm
  exact hperm.trans (List.perm_insertionSort ..)

/-- The URLs tell the backends apart, and none has the separator of the signature. -/
structure DistinctURLs (K : Backend → Prop) : Prop where
  plain : ∀ b, K b → '|' ∉ b.url.toList
  unique : ∀ b b', K b → K b' → b.url = b'.url → b = b'

variable {K : Backend → Prop} {c : ConsistentHash}

theorem DistinctURLs.mem_iff (hK : DistinctURLs K) {l l' : List Backend} (hl : ∀ b ∈ l, K b)
    (hl' : ∀ b ∈ l', K b) (h : membershipSignature l = membershipSignature l') (b : Backend) :
    b ∈ l ↔ b ∈ l' := by
  have hperm := perm_of_membershipSignature_eq (fun b hb => hK.plain b (hl b hb))
    (fun b hb => hK.plain b (hl' b hb)) h
  have hsub : ∀ {l l' : List Backend}, (∀ b ∈ l, K b) → (∀ b ∈ l', K b) →
      (l.map Backend.url).Perm (l'.map Backend.url) → b ∈ l → b ∈ l' := by
    intro l l' hl hl' hperm hb
    obtain ⟨b', hb', hurl⟩ := List.mem_map.mp (hperm.mem_iff.mp (List.mem_map_of_mem hb))
    rwa [hK.unique b b' (hl b hb) (hl' b' hb') hurl.symm]
  exact ⟨hsub hl hl' hperm, hsub hl' hl hperm.symm⟩

def Ring.Owns (r : Ring) (b : Backend) : Prop := ∃ point ∈ r.ring, r.ringMap.lookup point = some b

def HashInjective (c : ConsistentHash) (healthy : List Backend) : Prop :=
  ∀ b ∈ healthy, ∀ b' ∈ healthy, ∀ i < c.replicas.toNat, ∀ j < c.replicas.toNat,
    hashKey (b.url ++ "#" ++ toString i) = hashKey (b'.url ++ "#" ++ toString j) →
    b.url ++ "#" ++ toString i = b'.url ++ "#" ++ toString j

theorem hash_not_mem_digits (n : ℕ) : '#' ∉ (toString n).toList := by
  intro h
  change '#' ∈ n.repr.toList at h
  rw [Nat.toList_repr] at h
  exact absurd (Nat.isDigit_of_mem_toDigits (by decide) (by decide) h) (by decide)

theorem url_eq_of_node_eq {u v : String} {i j : ℕ}
    (h : u ++ "#" ++ toString i = v ++ "#" ++ toString j) : u = v := by
  have htext : u.toList ++ '#' :: (toString i).toList = v.toList ++ '#' :: (toString j).toList := by
    simpa using congrArg String.toList h
  have hrev : (toString i).toList.reverse ++ ('#' :: u.toList.reverse) =
      (toString j).toList.reverse ++ ('#' :: v.toList.reverse) := by
    simpa using congrArg List.reverse htext
  obtain ⟨_, hrest⟩ := eq_of_fields_eq (fun h => hash_not_mem_digits i (List.mem_reverse.mp h))
    (fun h => hash_not_mem_digits j (List.mem_reverse.mp h)) (separated_cons '#' _)
    (separated_cons '#' _) hrev
  exact String.toList_inj.mp (List.reverse_inj.mp (List.cons.inj hrest).2)

theorem placeNode_foldl_keys (nodes ringMap : List (UInt32 × Backend)) :
    ∀ p ∈ ringMap ++ nodes, p.1 ∈ (nodes.foldl placeNode ringMap).map Prod.fst := by
  induction nodes generalizing ringMap with
  | nil =>
    intro p hp
    rw [List.append_nil] at hp
    exact List.mem_map_of_mem hp
  | cons q nodes ih =>
    intro p hp
    rw [List.foldl_cons]
    by_cases hq : (ringMap.lookup q.1).isSome
    · have hplace : placeNode ringMap q = ringMap := if_pos hq
      rw [hplace]
      rcases List.mem_append.mp hp with hp | hp
      · exact ih ringMap p (List.mem_append_left _ hp)
      · rcases List.mem_cons.mp hp with rfl | hp
        · obtain ⟨b, hb⟩ := Option.isSome_iff_exists.mp hq
          obtain ⟨l₁, l₂, hsplit, _⟩ := List.lookup_eq_some_iff.mp hb
          exact ih ringMap (p.1, b) (List.mem_append_left _ (by simp [hsplit]))
        · exact ih ringMap p (List.mem_append_right _ hp)
    · have hplace : placeNode ringMap q = ringMap ++ [q] := if_neg hq
      rw [hplace]
      apply ih
      rw [List.append_assoc]
      exact hp

theorem rebuildLocked_owns {healthy : List Backend} (sig : String)
    (hinj : HashInjective c healthy) {b : Backend} (hb : b ∈ healthy)
    (hurl : ∀ b' ∈ healthy, b'.url = b.url → b' = b) :
    (rebuildLocked c healthy sig).Owns b := by
  have hpos : 0 < c.replicas.toNat := by have := c.replicas_pos; omega
  have hnode : (hashKey (b.url ++ "#" ++ toString 0), b) ∈ virtualNodes c healthy :=
    List.mem_flatMap.mpr ⟨b, hb, List.mem_map.mpr ⟨0, List.mem_range.mpr hpos, rfl⟩⟩
  have hkey := placeNode_foldl_keys (virtualNodes c healthy) [] _ hnode
  obtain ⟨b', hlookup, hmem⟩ := lookup_of_mem_keys hkey
  refine ⟨hashKey (b.url ++ "#" ++ toString 0), ?_, ?_⟩
  · simpa [rebuildLocked] using hkey
  · have hin := (placeNode_foldl_subset (virtualNodes c healthy) [] _ hmem).resolve_left (by simp)
    obtain ⟨b'', hb'', hi⟩ := List.mem_flatMap.mp hin
    obtain ⟨i, hilt, he⟩ := List.mem_map.mp hi
    obtain ⟨hhash, rfl⟩ := Prod.mk.inj he
    have hname := hinj b'' hb'' b hb i (List.mem_range.mp hilt) 0 hpos hhash
    rw [hurl b'' hb'' (url_eq_of_node_eq hname)] at hlookup
    exact hlookup

def ringSelect (c : ConsistentHash) (key : String) (healthy : List Backend) (w : World) :
    Option Backend :=
  let total := 1 + (healthy.map w.getActiveConns).sum
  let avg : ℚ := total / healthy.length
  let capacity := truncate (c.loadFactor * avg) + 1
  let start := w.ring.ring.findIdx fun point => decide (hashKey key ≤ point)
  let start := if start = w.ring.ring.length then 0 else start
  let points := (w.ring.ring.rotate start).map fun point => w.ring.ringMap.lookup point
  ringWalk w healthy capacity none [] points <|> healthy.head?

def lockedForKey (c : ConsistentHash) (key : String) (healthy : List Backend) : Selection := fun w =>
  let w := { w with ring := currentRing c healthy w }
  if w.ring.ring = [] then (.error errNoHealthy, w)
  else reserveSelected (ringSelect c key healthy w) w

theorem consistentHashForKey_eq (c : ConsistentHash) (key : String) :
    consistentHashForKey c key = withHealthy (lockedForKey c key) := rfl

def RingBuilt (c : ConsistentHash) (K : Backend → Prop) (r : Ring) : Prop :=
  r.ring = [] ∨ ∃ l, (∀ b ∈ l, K b) ∧ r = rebuildLocked c l (membershipSignature l)

theorem currentRing_built (hK : DistinctURLs K) {w : World} (hr : RingBuilt c K w.ring)
    {healthy : List Backend} (hh : ∀ b ∈ healthy, K b) :
    ∃ l, (∀ b, b ∈ l ↔ b ∈ healthy) ∧
      currentRing c healthy w = rebuildLocked c l (membershipSignature l) := by
  unfold currentRing
  dsimp only
  split_ifs with h
  · exact ⟨healthy, fun b => Iff.rfl, rfl⟩
  · obtain ⟨hsig, hne⟩ := not_or.mp h
    obtain hempty | ⟨l, hl, hbuilt⟩ := hr
    · exact absurd hempty hne
    · refine ⟨l, hK.mem_iff hl hh ?_, hbuilt⟩
      rw [not_not.mp hsig, hbuilt]
      rfl

theorem reserveSelected_frame (o : Option Backend) (w : World) :
    (reserveSelected o w).2.ring = w.ring ∧ (reserveSelected o w).2.backends = w.backends := by
  cases o with
  | none => exact ⟨rfl, rfl⟩
  | some b => exact ⟨rfl, rfl⟩

theorem lockedForKey_frame (c : ConsistentHash) (key : String) (healthy : List Backend) (w : World) :
    (lockedForKey c key healthy w).2.ring = currentRing c healthy w ∧
      (lockedForKey c key healthy w).2.backends = w.backends := by
  unfold lockedForKey
  dsimp only
  split_ifs
  · exact ⟨rfl, rfl⟩
  · exact reserveSelected_frame _ _

theorem ringSelect_mem {key : String} {healthy : List Backend} {w : World}
    (hpoints : ∀ point ∈ w.ring.ring, ∃ b ∈ healthy, w.ring.ringMap.lookup point = some b)
    {b : Backend} (h : ringSelect c key healthy w = some b) : b ∈ healthy := by
  simp only [ringSelect, Option.orElse_eq_orElse, Option.orElse_eq_or, Option.or_eq_some_iff] at h
  rcases h with hw | ⟨_, hhead⟩
  · exact ringWalk_mem (by simp) (rotated_points hpoints _) b hw
  · exact List.mem_of_mem_head? hhead

theorem lockedForKey_mem {key : String} {healthy : List Backend} {w : World}
    (hpoints : ∀ point ∈ (currentRing c healthy w).ring,
      ∃ b ∈ healthy, (currentRing c healthy w).ringMap.lookup point = some b)
    {b : Backend} (h : (lockedForKey c key healthy w).1 = .backend b) : b ∈ healthy := by
  unfold lockedForKey at h
  dsimp only at h
  split_ifs at h
  cases hsel : ringSelect c key healthy { w with ring := currentRing c healthy w } with
  | none =>
    rw [hsel] at h
    cases h
  | some b' =>
    rw [hsel] at h
    obtain rfl : b' = b := Picked.backend.inj h
    exact ringSelect_mem hpoints hsel

/-- The balancer, with the backends that have been added so far. -/
structure HashBalancer where
  world : World := {}
  added : List Backend := []

/-- What a call of `NextForKey` asks for. -/
inductive HashOp where
  | getHealthy
  | locked (key : String) (healthy : List Backend)

abbrev HashAns : HashOp → Type
  | .getHealthy => List Backend
  | .locked _ _ => Picked

abbrev HashProg := Prog HashOp HashAns Empty Empty

abbrev askHealthy : HashProg (List Backend) := Prog.perform HashOp.getHealthy

abbrev askLocked (key : String) (healthy : List Backend) : HashProg Picked :=
  Prog.perform (HashOp.locked key healthy)

def nextForKeyCall (key : String) : HashProg Picked := do
  let healthy ← askHealthy
  if healthy = [] then pure (.error errNoHealthy) else askLocked key healthy

/-- `GetHealthy` returns the healthy members, or a list that is out of date: any list of
backends added before. -/
def HashBalancer.getHealthy (s : HashBalancer) : Option (List Backend) → List Backend
  | none => s.world.getHealthy
  | some l => l.filter (· ∈ s.added)

def serveHash (c : ConsistentHash) (s : HashBalancer) :
    (o : HashOp) → Option (List Backend) → HashBalancer × HashAns o
  | .getHealthy, stale => (s, s.getHealthy stale)
  | .locked key healthy, _ =>
    ({ s with world := (lockedForKey c key healthy s.world).2 },
      (lockedForKey c key healthy s.world).1)

inductive MemberChange where
  | add (b : Backend)
  | remove (b : Backend)
  | setHealthy (b : Backend) (up : Bool)
  | decrConn (b : Backend)
  deriving DecidableEq

def HashBalancer.change (s : HashBalancer) : MemberChange → HashBalancer
  | .add b =>
    { world := { s.world with backends := s.world.backends ++ [b] }, added := b :: s.added }
  | .remove b => { s with world := { s.world with backends := s.world.backends.erase b } }
  | .setHealthy b up =>
    { s with world := { s.world with healthy := Function.update s.world.healthy b up } }
  | .decrConn b => { s with world := s.world.decrConn b }

abbrev HashCall := Thread String HashBalancer HashOp HashAns Picked

def hashRules (c : ConsistentHash) :
    Crowd.Rules HashBalancer HashCall String (Option (List Backend)) MemberChange :=
  Thread.rules nextForKeyCall (serveHash c) fun s x => some (s.change x)

/-- Everything in the balancer is known, and its ring was built for something known. -/
structure HashBalancer.Sound (c : ConsistentHash) (K : Backend → Prop) (s : HashBalancer) : Prop where
  known : ∀ b ∈ s.added, K b
  members : ∀ b ∈ s.world.backends, b ∈ s.added
  ring : RingBuilt c K s.world.ring

/-- A healthy list is of known backends; a selection is from its list, whose backends have points
on the ring. -/
def RightHash (c : ConsistentHash) (K : Backend → Prop) (s : HashBalancer) :
    (o : HashOp) → HashAns o → Prop
  | .getHealthy, healthy => ∀ b ∈ healthy, K b
  | .locked _ healthy, out => (∀ b, out = .backend b → b ∈ healthy) ∧
      ∀ b ∈ healthy, (∀ b' ∈ healthy, b'.url = b.url → b' = b) → HashInjective c healthy →
        s.world.ring.Owns b

def MayHash (K : Backend → Prop) : HashOp → Prop
  | .getHealthy => True
  | .locked _ healthy => ∀ b ∈ healthy, K b

variable {s : HashBalancer}

theorem HashBalancer.Sound.locked (h : s.Sound c K) (hK : DistinctURLs K) (key : String)
    {healthy : List Backend} (hh : ∀ b ∈ healthy, K b) (stale : Option (List Backend)) :
    (serveHash c s (.locked key healthy) stale).1.Sound c K ∧
      RightHash c K (serveHash c s (.locked key healthy) stale).1 (.locked key healthy)
        (serveHash c s (.locked key healthy) stale).2 := by
  obtain ⟨l, hmem, hring⟩ := currentRing_built hK h.ring hh
  obtain ⟨hframe, hbackends⟩ := lockedForKey_frame c key healthy s.world
  refine ⟨⟨h.known, ?_, ?_⟩, ?_, ?_⟩
  · intro b hb
    apply h.members
    rw [← hbackends]
    exact hb
  · right
    refine ⟨l, fun b hb => hh b ((hmem b).mp hb), ?_⟩
    exact hframe.trans hring
  · intro b hb
    refine lockedForKey_mem ?_ hb
    rw [hring]
    intro point hp
    obtain ⟨b', hb', he⟩ := rebuildLocked_points c l _ point hp
    exact ⟨b', (hmem b').mp hb', he⟩
  · intro b hb hurl hinj
    change Ring.Owns (lockedForKey c key healthy s.world).2.ring b
    rw [hframe, hring]
    apply rebuildLocked_owns
    · intro b₁ hb₁ b₂ hb₂
      exact hinj b₁ ((hmem b₁).mp hb₁) b₂ ((hmem b₂).mp hb₂)
    · exact (hmem b).mpr hb
    · intro b' hb'
      exact hurl b' ((hmem b').mp hb')

theorem HashBalancer.Sound.getHealthy (h : s.Sound c K) (stale : Option (List Backend)) :
    ∀ b ∈ s.getHealthy stale, K b := by
  intro b hb
  apply h.known
  cases stale with
  | none => exact h.members b (List.mem_of_mem_filter hb)
  | some l => simpa using (List.mem_filter.mp hb).2

theorem HashBalancer.Sound.change (h : s.Sound c K) {x : MemberChange}
    (hx : ∀ b, x = .add b → K b) : (s.change x).Sound c K := by
  cases x with
  | add b =>
    refine ⟨?_, ?_, h.ring⟩
    · intro b' hb'
      rcases List.mem_cons.mp hb' with rfl | hb'
      · exact hx b' rfl
      · exact h.known b' hb'
    · intro b' hb'
      rcases List.mem_append.mp hb' with hb' | hb'
      · exact List.mem_cons_of_mem _ (h.members b' hb')
      · exact List.mem_cons.mpr (.inl (List.mem_singleton.mp hb'))
  | remove b =>
    exact ⟨h.known, fun b' hb' => h.members b' (List.mem_of_mem_erase hb'), h.ring⟩
  | setHealthy b up => exact ⟨h.known, h.members, h.ring⟩
  | decrConn b => exact ⟨h.known, h.members, h.ring⟩

def FromItsList (log : List (Reading HashBalancer HashOp HashAns)) (out : Picked) : Prop :=
  ∀ b, out = .backend b → ∃ s healthy, ⟨s, .getHealthy, healthy⟩ ∈ log ∧ b ∈ healthy

/-- Where a call held the lock, the backends of its list that their URLs tell apart have
points on the ring. -/
def MembersPlaced (c : ConsistentHash) (log : List (Reading HashBalancer HashOp HashAns)) : Prop :=
  ∀ r ∈ log, ∀ key healthy, r.op = .locked key healthy →
    ∀ b ∈ healthy, (∀ b' ∈ healthy, b'.url = b.url → b' = b) → HashInjective c healthy →
      r.state.world.ring.Owns b

theorem nextForKeyCall_leads (key : String) :
    Leads (MayHash K) (RightHash c K) (fun log out => FromItsList log out ∧ MembersPlaced c log)
      (nextForKeyCall key) [] := by
  refine leads_perform_bind.mpr ⟨trivial, fun s healthy hh => ?_⟩
  split_ifs with hempty
  · refine ⟨?_, ?_⟩
    · intro b hb
      cases hb
    intro r hr key healthy hop
    obtain rfl := List.mem_singleton.mp hr
    cases hop
  · refine ⟨hh, fun s' out hout => ⟨?_, ?_⟩⟩
    · intro b hb
      exact ⟨s, healthy, by simp, hout.1 b hb⟩
    · intro r hr key' healthy' hop
      rcases List.mem_append.mp hr with hr | hr
      · obtain rfl := List.mem_singleton.mp hr
        cases hop
      · obtain rfl := List.mem_singleton.mp hr
        cases hop
        exact hout.2

/-- In every history in which no two different backends with one URL are added, a call returns a
backend of the list that `GetHealthy` gave it, and each backend of that list has a point on the
ring. -/
theorem nextForKey_returns_members (c : ConsistentHash)
    (ms : List (Crowd.Move String (Option (List Backend)) MemberChange))
    (t : Crowd HashBalancer HashCall)
    (hK : DistinctURLs fun b => Crowd.Move.outside (.add b) ∈ ms)
    (hr : exec (Crowd.step (hashRules c)) ⟨{}, []⟩ ms = some t) :
    ∀ call ∈ t.parties, ∀ out, call.prog.value? = some out →
      FromItsList call.log out ∧ MembersPlaced c call.log := by
  let K : Backend → Prop := fun b => Crowd.Move.outside (.add b) ∈ ms
  let Ok : Crowd.Move String (Option (List Backend)) MemberChange → Prop := fun m =>
    ∀ b, m = .outside (.add b) → K b
  let Inv : Crowd HashBalancer HashCall → Prop := fun t =>
    t.Holds (HashBalancer.Sound c K) fun _ call =>
      Leads (MayHash K) (RightHash c K) (fun log out => FromItsList log out ∧ MembersPlaced c log)
        call.prog call.log
  have hstep : ∀ t m t', Inv t → Ok m → Crowd.step (hashRules c) t m = some t' → Inv t' := by
    intro t m t' hi hok hs
    apply Thread.leads_step (fun _ m => Ok m) nextForKeyCall_leads _ _ hi hok hs
    · intro s n o stale hs hmay _
      cases o with
      | getHealthy => exact ⟨hs, hs.getHealthy stale⟩
      | locked key healthy => exact hs.locked hK key hmay stale
    · intro s x s' hs hok hx
      cases hx
      apply hs.change
      intro b hb
      apply hok b
      rw [hb]
  have hinit : Inv ⟨{}, []⟩ := by
    refine ⟨⟨?_, ?_, .inl rfl⟩, ?_⟩
    · intro b hb
      cases hb
    · intro b hb
      cases hb
    · intro call hcall
      cases hcall
  have hok : Meets (Crowd.step (hashRules c)) (fun _ m => Ok m) ⟨{}, []⟩ ms := by
    apply meets_of_forall
    intro m hm b hb
    change Crowd.Move.outside (.add b) ∈ ms
    rwa [← hb]
  intro call hcall out hout
  have hleads := (exec_invariant hstep hok hr hinit).each call hcall
  rw [Prog.value?_eq_some.mp hout] at hleads
  exact hleads

def original : Backend := { addr := 0, url := "http://a" }
def replacement : Backend := { addr := 1, url := "http://a" }

/-- A backend is selected, then removed, and another with its URL is added. -/
def replaced : List (Crowd.Move String (Option (List Backend)) MemberChange) :=
  [.outside (.add original), .enter "k", .act 0 none, .act 0 none,
    .outside (.remove original), .outside (.add replacement), .enter "k", .act 1 none, .act 1 none]

def givenList : Reading HashBalancer HashOp HashAns → Option (List Backend)
  | ⟨_, .getHealthy, healthy⟩ => some healthy
  | ⟨_, .locked _ _, _⟩ => none

/-- The list that a call searched the ring for, and the ring. -/
def searched : Reading HashBalancer HashOp HashAns → Option (List Backend × Ring)
  | ⟨_, .getHealthy, _⟩ => none
  | ⟨s, .locked _ healthy, _⟩ => some (healthy, s.world.ring)

/-- What a call has returned, and what it was given and searched. -/
def hashOutcome (c : ConsistentHash)
    (ms : List (Crowd.Move String (Option (List Backend)) MemberChange)) (i : ℕ) :
    Option (Option Picked × List (List Backend) × List (List Backend × Ring)) :=
  (exec (Crowd.step (hashRules c)) ⟨{}, []⟩ ms).bind fun t => t.parties[i]?.map fun call =>
    (call.prog.value?, call.log.filterMap givenList, call.log.filterMap searched)

/-- The removed backend is returned to a call whose list is the new one alone. -/
theorem nextForKey_returns_removed :
    let c := newConsistentHash 1 2
    ∃ t call, exec (Crowd.step (hashRules c)) ⟨{}, []⟩ replaced = some t ∧ call ∈ t.parties ∧
      call.prog.value? = some (.backend original) ∧ ¬ FromItsList call.log (.backend original) ∧
      HashInjective c [replacement] ∧ ¬ MembersPlaced c call.log := by
  intro c
  let stale : Ring := ⟨[hashKey "http://a#0"], [(hashKey "http://a#0", original)], "http://a|"⟩
  have ho : hashOutcome c replaced 1 =
      some (some (.backend original), [[replacement]], [([replacement], stale)]) := by decide +kernel
  obtain ⟨t, ht, hcall⟩ := Option.bind_eq_some_iff.mp ho
  obtain ⟨call, hi, heq⟩ := Option.map_eq_some_iff.mp hcall
  obtain ⟨hout, hgiven, hsearched⟩ := by simpa using heq
  have hinj : HashInjective c [replacement] := by
    intro b hb b' hb' i hi j hj _
    have hone : c.replicas.toNat = 1 := by decide
    rw [List.mem_singleton.mp hb, List.mem_singleton.mp hb', show i = 0 by omega, show j = 0 by omega]
  refine ⟨t, call, ht, List.mem_of_getElem? hi, hout, ?_, hinj, ?_⟩
  · intro h
    obtain ⟨s, healthy, hread, hmem⟩ := h original rfl
    have hlist : healthy ∈ call.log.filterMap givenList :=
      List.mem_filterMap.mpr ⟨_, hread, rfl⟩
    rw [hgiven, List.mem_singleton] at hlist
    rw [hlist] at hmem
    exact absurd hmem (by decide)
  · intro h
    have hmem : ([replacement], stale) ∈ call.log.filterMap searched := by
      rw [hsearched]
      exact List.mem_singleton_self _
    obtain ⟨⟨s, o, a⟩, hread, hsome⟩ := List.mem_filterMap.mp hmem
    cases o with
    | getHealthy => cases hsome
    | locked key healthy =>
      obtain ⟨rfl, hring⟩ := Prod.mk.inj (Option.some.inj hsome)
      have howns := h _ hread key [replacement] rfl replacement (List.mem_singleton_self _)
        (fun b hb _ => List.mem_singleton.mp hb) hinj
      change s.world.ring.Owns replacement at howns
      rw [hring] at howns
      obtain ⟨point, hp, hlookup⟩ := howns
      rw [List.mem_singleton.mp hp] at hlookup
      exact absurd hlookup (by decide +kernel)

def neighbour : Backend := { addr := 1, url := "http://b" }

/-- Between the calls one backend fails and recovers, and the one that was selected is removed. -/
def handedOver : List (Crowd.Move String (Option (List Backend)) MemberChange) :=
  [.outside (.add original), .outside (.add neighbour), .enter "k", .act 0 none, .act 0 none,
    .outside (.setHealthy neighbour false), .enter "k", .act 1 none, .outside (.setHealthy neighbour true),
      .act 1 none,
    .outside (.remove original), .enter "k", .act 2 none, .act 2 none]

theorem nextForKey_returns_members_handedOver :
    ∃ t, exec (Crowd.step (hashRules (newConsistentHash 2 2))) ⟨{}, []⟩ handedOver = some t ∧
      t.parties.map (·.prog.value?) =
        [some (.backend original), some (.backend original), some (.backend neighbour)] ∧
      ∀ call ∈ t.parties, ∀ out, call.prog.value? = some out →
        FromItsList call.log out ∧ MembersPlaced (newConsistentHash 2 2) call.log := by
  have hrun : (exec (Crowd.step (hashRules (newConsistentHash 2 2))) ⟨{}, []⟩ handedOver).map
      (fun t => t.parties.map (·.prog.value?)) =
        some [some (.backend original), some (.backend original), some (.backend neighbour)] := by
          decide +kernel
  obtain ⟨t, ht, hout⟩ := Option.map_eq_some_iff.mp hrun
  have hK : DistinctURLs fun b => Crowd.Move.outside (.add b) ∈ handedOver := by
    have honly : ∀ b, Crowd.Move.outside (.add b) ∈ handedOver → b = original ∨ b = neighbour := by
      intro b hb
      simpa [handedOver] using hb
    constructor
    · intro b hb
      rcases honly b hb with rfl | rfl <;> decide
    · intro b b' hb hb' hurl
      rcases honly b hb with rfl | rfl <;> rcases honly b' hb' with rfl | rfl
      · rfl
      · exact absurd hurl (by decide)
      · exact absurd hurl (by decide)
      · rfl
  exact ⟨t, ht, hout, nextForKey_returns_members _ _ t hK ht⟩

end ReverseProxyLb
