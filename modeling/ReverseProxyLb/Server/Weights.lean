import ReverseProxyLb.Balancer.Nesting
import ReverseProxyLb.Balancer.Weights
import ReverseProxyLb.Config.Load
import ReverseProxyLb.Server.Drain

/-! The groups of a server with the weights that were last set, by the configuration or by
the admin API. Requests, breakers and checkers go on meanwhile, and change no weight. -/
namespace ReverseProxyLb
open Lib

namespace World

def updateWeight (w : World) (b : Backend) (weight : ℤ) : World :=
  if b ∈ w.backends then { w with weight := Function.update w.weight b (Int32.ofInt weight) } else w

theorem updateWeight_backends (w : World) (b : Backend) (weight : ℤ) :
    (w.updateWeight b weight).backends = w.backends := by
  unfold updateWeight
  split <;> rfl

theorem updateWeight_weight
    {w : World} {x : Backend} (hx : x ∈ w.backends) (b : Backend) (weight : ℤ) :
    (w.updateWeight b weight).weight x = if x = b then Int32.ofInt weight else w.weight x := by
  unfold updateWeight
  by_cases hb : b ∈ w.backends
  · rw [if_pos hb]
    exact Function.update_apply ..
  · rw [if_neg hb, if_neg]
    rintro rfl
    exact hb hx

def SameRoster (w w' : World) : Prop := w'.backends = w.backends ∧ w'.weight = w.weight

theorem frame_sameRoster : Frame SameRoster where
  refl _ := ⟨rfl, rfl⟩
  trans _ _ _ h h' := ⟨h'.1.trans h.1, h'.2.trans h.2⟩
  incrConn _ _ := ⟨rfl, rfl⟩
  decrConn _ _ := ⟨rfl, rfl⟩
  draw _ := ⟨rfl, rfl⟩
  current _ _ := ⟨rfl, rfl⟩
  currentWeight _ _ _ := ⟨rfl, rfl⟩
  ring _ _ := ⟨rfl, rfl⟩

end World

namespace Server
open Proxy ConfigFile World
open Routing (BackendEntry)

namespace Lane

def world (l : Lane) : World := l.traffic.shared.world

def setWorld (l : Lane) (w : World) : Lane := l.setShared { l.traffic.shared with world := w }

def updateWeight (l : Lane) (b : Backend) (weight : ℤ) : Lane :=
  l.setWorld (l.world.updateWeight b weight)

def configured (l : Lane) (backends : List BackendEntry) : Lane :=
  let members := Members.build (backends.map BackendEntry.toBackendConfig)
  l.setWorld { l.world with
    backends := members.backends
    weight := members.weight }

end Lane

def Fleet.handleAdminWeight (f : Fleet) (method url weight : String) : AdminResponse × Fleet :=
  match f.adminBackendByURL method url with
  | .error resp => (resp, f)
  | .ok (i, b) =>
    match Text.atoi weight with
    | none => ({ code := 400, msg := "invalid weight parameter" }, f)
    | some weight =>
      if weight < 0 then ({ code := 400, msg := "weight must be non-negative" }, f)
      else ({ code := 200 }, { lanes := f.lanes.modify i fun l => l.updateWeight b weight })

/-- The groups, and the weights that were last set in each of them. -/
structure Weighing where
  fleet : Fleet
  last : ℕ → Backend → ℤ

inductive WeighingTurn where
  | weight (method url weight : String)
  /-- A group with weighted round robin selects a backend. -/
  | next (i : ℕ)
  | lane (i : ℕ) (t : LaneTurn)

namespace Weighing

def start (groups : List (Lane × List BackendEntry)) : Weighing where
  fleet := { lanes := groups.map fun g => g.1.configured g.2 }
  last i b := (((groups[i]?).bind fun g => g.2[b.addr]?).map fun bc => bc.weight).getD 0

def set (s : Weighing) (url weight : String) : ℕ → Backend → ℤ :=
  match s.fleet.findBackend url, Text.atoi weight with
  | some (i, b), some weight => Function.update s.last i (Function.update (s.last i) b weight)
  | _, _ => s.last

def step (s : Weighing) : WeighingTurn → Option Weighing
  | .weight method url weight =>
    let (resp, f) := s.fleet.handleAdminWeight method url weight
    some { fleet := f, last := if resp.code = 200 then s.set url weight else s.last }
  | .next i => s.fleet.lanes[i]?.map fun l =>
    { s with fleet := { lanes := s.fleet.lanes.set i (l.setWorld (weightedRoundRobin l.world).2) } }
  | .lane i t => s.fleet.lanes[i]?.bind fun l => (l.step t).map fun l' =>
    { s with fleet := { lanes := s.fleet.lanes.set i l' } }

end Weighing

section Roster
variable {site : Site} {σ σ' : Shared}

theorem observe_roster (σ : Shared) (b : Backend) (ok : Bool) :
    SameRoster σ.world (σ.observe site b ok).world := by
  unfold Shared.observe
  split
  · next od hod =>
    rcases OutlierDetection.observeOutcome_spec _ od σ.now b ok
      σ.world with ⟨st, -, he⟩ | ⟨st, st', -, he⟩
    · rw [he]
      exact ⟨rfl, rfl⟩
    · rw [he]
      exact ⟨rfl, rfl⟩
  · exact ⟨rfl, rfl⟩

theorem answer_roster {o : Op} {a : Ans o} (h : σ.answer site o a = some σ') :
    SameRoster σ.world σ'.world := by
  cases o with
  | getHealthy | getActiveConns | allow =>
    simp only [Shared.answer] at h
    split_ifs at h
    cases h
    exact ⟨rfl, rfl⟩
  | observeOutcome b ok =>
    cases h
    exact observe_roster σ b ok
  | _ =>
    cases h
    exact ⟨rfl, rfl⟩

theorem serve_roster {l : Label Op Ans} (h : σ.serve site l = some σ') :
    SameRoster σ.world σ'.world := by
  cases l with
  | main c | spawned i c =>
    cases c with
    | answer o a => exact answer_roster h
    | _ =>
      cases h
      exact ⟨rfl, rfl⟩
  | crash i =>
    cases h
    exact ⟨rfl, rfl⟩

theorem reinstated_roster (σ : Shared) : SameRoster σ.world (σ.reinstated site) := by
  unfold Shared.reinstated Deployment.reinstated
  cases site.deployment.outlier <;> exact ⟨rfl, rfl⟩

theorem traffic_roster {t t' : Traffic} {m : Move} (h : t.step site m = some t') :
    SameRoster t.shared.world t'.shared.world := by
  cases Traffic.step_cases h with
  | wait d => exact ⟨rfl, rfl⟩
  | pinned hsticky hp => exact ⟨rfl, rfl⟩
  | balanced hp => exact reinstated_roster t.shared
  | work hi hpool hσ => exact serve_roster hσ

theorem lane_roster {l l' : Lane} {t : LaneTurn} (h : l.step t = some l') :
    SameRoster l.world l'.world := by
  cases t with
  | traffic m =>
    obtain ⟨t, ht, rfl⟩ := Option.map_eq_some_iff.mp h
    exact traffic_roster ht
  | call b k =>
    cases h
    exact ⟨rfl, rfl⟩
  | probe b ok =>
    obtain ⟨k, -, rfl⟩ := Option.map_eq_some_iff.mp h
    exact ⟨rfl, rfl⟩
  | mark =>
    obtain ⟨p, hp, rfl⟩ := Option.map_eq_some_iff.mp h
    obtain ⟨x, -, rfl⟩ := Option.map_eq_some_iff.mp hp
    exact ⟨rfl, rfl⟩

end Roster

def Lane.Holds (l : Lane) (last : Backend → ℤ) : Prop :=
  ∀ b ∈ l.world.backends, 0 ≤ last b ∧ l.world.weight b = Int32.ofInt (last b)

def Weighing.Kept (s : Weighing) : Prop := ∀ i, ∀ l ∈ s.fleet.lanes[i]?, Lane.Holds l (s.last i)

theorem Lane.Holds.of_roster {l l' : Lane} {last : Backend → ℤ} (h : l.Holds last)
    (hr : SameRoster l.world l'.world) : l'.Holds last := by
  intro b hb
  rw [hr.1] at hb
  rw [hr.2]
  exact h b hb

theorem Lane.Holds.updateWeight {l : Lane} {last : Backend → ℤ} (h : l.Holds last) (b : Backend)
    {weight : ℤ} (hweight : 0 ≤ weight) :
    (l.updateWeight b weight).Holds (Function.update last b weight) := by
  intro x hx
  have hx : x ∈ l.world.backends := by
    rw [← World.updateWeight_backends l.world b weight]
    exact hx
  change _ ∧ (World.updateWeight l.world b weight).weight x = _
  rw [World.updateWeight_weight hx, Function.update_apply]
  split
  · exact ⟨hweight, rfl⟩
  · exact h x hx

theorem Weighing.kept_start {parse : String → Option (String × String)}
    {groups : List (Lane × List BackendEntry)}
    (hvalid : ∀ g ∈ groups, validateEach (validateBackend parse) 0 g.2 = .ok ()) :
    (start groups).Kept := by
  intro i l hl
  have hl : (groups.map fun g => g.1.configured g.2)[i]? = some l := hl
  rw [List.getElem?_map] at hl
  obtain ⟨g, hg, rfl⟩ := Option.map_eq_some_iff.mp hl
  intro b hb
  have hlast : (start groups).last i b = ((g.2.map BackendEntry.toBackendConfig)[b.addr]?.map
      BackendConfig.weight).getD 0 := by
    simp only [start, hg, Option.bind_some, List.getElem?_map, Option.map_map]
    rfl
  rw [hlast]
  constructor
  · cases hbc : g.2[b.addr]? with
    | none => simp [hbc]
    | some bc =>
      have hmem : bc ∈ g.2 := List.mem_of_getElem? hbc
      obtain ⟨j, hj⟩ := validateEach_ok (hvalid g (List.mem_of_getElem? hg)) bc hmem
      simpa [hbc] using (validateBackend_ok hj).1
  · exact Members.build_weight hb

theorem Weighing.Kept.replace
    {s : Weighing} (h : s.Kept) {i : ℕ} {l : Lane} (hl : l.Holds (s.last i)) :
    { s with fleet := { lanes := s.fleet.lanes.set i l } }.Kept := by
  intro j l' hl'
  have hl' : (s.fleet.lanes.set i l)[j]? = some l' := hl'
  by_cases hj : j = i
  · subst hj
    rw [List.getElem?_set_self'] at hl'
    obtain ⟨-, -, rfl⟩ := Option.map_eq_some_iff.mp hl'
    exact hl
  · rw [List.getElem?_set_ne (Ne.symm hj)] at hl'
    exact h j l' hl'

theorem handleAdminWeight_cases (f : Fleet) (method url weight : String) :
    ((f.handleAdminWeight method url weight).1.code ≠ 200 ∧
      (f.handleAdminWeight method url weight).2 = f) ∨
      ∃ i b v, f.findBackend url = some (i, b) ∧ Text.atoi weight = some v ∧ 0 ≤ v ∧
        f.handleAdminWeight method url weight =
          ({ code := 200 }, { lanes := f.lanes.modify i fun l => l.updateWeight b v }) := by
  unfold Fleet.handleAdminWeight Fleet.adminBackendByURL
  split_ifs with hmethod hurl
  · exact .inl ⟨(by decide : (405 : ℤ) ≠ 200), rfl⟩
  · exact .inl ⟨(by decide : (400 : ℤ) ≠ 200), rfl⟩
  · cases hfind : f.findBackend url with
    | none => exact .inl ⟨(by decide : (404 : ℤ) ≠ 200), rfl⟩
    | some found =>
      cases hatoi : Text.atoi weight with
      | none => exact .inl ⟨(by decide : (400 : ℤ) ≠ 200), rfl⟩
      | some v =>
        by_cases hv : v < 0
        · left
          dsimp only
          rw [if_pos hv]
          exact ⟨(by decide : (400 : ℤ) ≠ 200), rfl⟩
        · right
          dsimp only
          rw [if_neg hv]
          exact ⟨found.1, found.2, v, rfl, rfl, not_lt.mp hv, rfl⟩

theorem Weighing.Kept.handleAdminWeight {s : Weighing} (h : s.Kept) (method url weight : String) :
    Weighing.Kept {
      fleet := (s.fleet.handleAdminWeight method url weight).2
      last := if (s.fleet.handleAdminWeight method url weight).1.code = 200 then s.set url weight
        else s.last } := by
  rcases handleAdminWeight_cases s.fleet method url
    weight with ⟨hcode, hsame⟩ | ⟨i, b, v, hfind, hatoi, hv, hsucceeds⟩
  · rw [if_neg hcode, hsame]
    exact h
  · rw [hsucceeds, if_pos rfl]
    unfold Weighing.set
    rw [hfind, hatoi]
    intro j l hl
    have hl : (s.fleet.lanes.modify i fun l => l.updateWeight b v)[j]? = some l := hl
    rw [List.getElem?_modify] at hl
    obtain ⟨l₀, hl₀, rfl⟩ := Option.map_eq_some_iff.mp hl
    by_cases hj : i = j
    · subst hj
      rw [if_pos rfl]
      change Lane.Holds _ (Function.update s.last i _ i)
      rw [Function.update_self]
      exact (h i l₀ hl₀).updateWeight b hv
    · rw [if_neg hj]
      change Lane.Holds _ (Function.update s.last i _ j)
      rw [Function.update_of_ne (Ne.symm hj)]
      exact h j l₀ hl₀

theorem Weighing.Kept.step {s s' : Weighing} {t : WeighingTurn} (h : s.Kept)
    (hs : s.step t = some s') :
    s'.Kept := by
  cases t with
  | weight method url weight =>
    cases hs
    exact h.handleAdminWeight method url weight
  | next i =>
    obtain ⟨l, hl, rfl⟩ := Option.map_eq_some_iff.mp hs
    apply h.replace
    exact (h i l hl).of_roster (frame_sameRoster.weightedRoundRobin l.world)
  | lane i t =>
    obtain ⟨l, hl, hs⟩ := Option.bind_eq_some_iff.mp hs
    obtain ⟨l', hl', rfl⟩ := Option.map_eq_some_iff.mp hs
    exact h.replace ((h i l hl).of_roster (lane_roster hl'))

/-- Each weight is what was last set, `Next` does not panic, and a backend of weight zero is not
returned while another healthy one has a weight, exactly if every weight is below `2 ^ 31` and
those of the healthy backends do not add up to a multiple of `2 ^ 32`. -/
theorem weights_faithful_iff {parse : String → Option (String × String)}
    {groups : List (Lane × List BackendEntry)}
    (hvalid : ∀ g ∈ groups, validateEach (validateBackend parse) 0 g.2 = .ok ())
    {ts : List WeighingTurn} {s : Weighing}
    (hrun : exec Weighing.step (Weighing.start groups) ts = some s) {i : ℕ} {l : Lane}
    (hl : s.fleet.lanes[i]? = some l) : Faithful l.world (s.last i) ↔ Fits l.world (s.last i) := by
  have hkept : s.Kept := exec_keeps (fun _ _ _ h hs => h.step hs) hrun (Weighing.kept_start hvalid)
  exact faithful_iff (fun b hb => (hkept i l hl b hb).1) fun b hb => (hkept i l hl b hb).2

def weightedLane : Lane where
  site :=
    { proxy := {}
      breaker := Circuit.newCircuitBreakerWithConfig
        { mode := .modeConsecutive, failureThreshold := 1, successThreshold := 1, timeout := 0
          rollingWindow := 0, errorRateThreshold := 0, minRequests := 0 }
      deployment := { outlier := none, stack := .base .weightedRoundRobin } }
  checker := { cfg := { healthyThreshold := 1, unhealthyThreshold := 1 } }

def threeWeights (a b c : ℤ) : List (Lane × List BackendEntry) :=
  [(weightedLane, [{ url := "http://a", weight := a }, { url := "http://b", weight := b },
    { url := "http://c", weight := c }])]

theorem threeWeights_valid {a b c : ℤ} (ha : 0 ≤ a) (hb : 0 ≤ b) (hc : 0 ≤ c) :
    ∀ g ∈ threeWeights a b c, validateEach (validateBackend anyURL) 0 g.2 = .ok () := by
  intro g hg
  cases List.mem_singleton.mp hg
  simp [validateEach, validateBackend, anyURL, ha, hb, hc, not_lt.mpr]
  rfl

/-- Weight zero is set to five, and another one is set to zero. -/
theorem weights_faithful_iff_updated :
    ∃ (s : Weighing) (l : Lane), exec Weighing.step (Weighing.start (threeWeights 3 0 1))
        [.weight "POST" "http://b" "5", .next 0, .weight "POST" "http://a" "0"] = some s ∧
      s.fleet.lanes[0]? = some l ∧ l.world.backends.map (s.last 0) = [0, 5, 1] ∧
        Faithful l.world (s.last 0) := by
  have hrun : (exec Weighing.step (Weighing.start (threeWeights 3 0 1))
      [.weight "POST" "http://b" "5", .next 0, .weight "POST" "http://a" "0"]).any (fun s =>
        s.fleet.lanes[0]?.any fun l => decide (l.world.backends.map (s.last 0) = [0, 5, 1] ∧
          Fits l.world (s.last 0))) = true := by decide +kernel
  obtain ⟨s, hs, hlane⟩ := (Option.any_eq_true _ _).mp hrun
  obtain ⟨l, hl, hfits⟩ := (Option.any_eq_true _ _).mp hlane
  obtain ⟨hlast, hfits⟩ := of_decide_eq_true hfits
  have hvalid := threeWeights_valid (a := 3) (b := 0) (c := 1) (by decide) (by decide) (by decide)
  exact ⟨s, l, hs, hl, hlast, (weights_faithful_iff hvalid hs hl).mpr hfits⟩

/-- A weight of `2 ^ 31` is stored as a negative number, and three weights that are stored as set
make the selection divide by zero. -/
theorem weights_wrap :
    (∃ (s : Weighing) (l : Lane),
      exec Weighing.step
        (Weighing.start (threeWeights 1 1 1)) [.weight "POST" "http://a" "2147483648"] = some s ∧
      s.fleet.lanes[0]? = some l ∧ l.world.backends.map (s.last 0) = [2147483648, 1, 1] ∧
      l.world.backends.map l.world.getWeight = [-2147483648, 1, 1]) ∧
    ∃ l : Lane, (Weighing.start (threeWeights 2147483647 2147483647 2)).fleet.lanes[0]? = some l ∧
      l.world.backends.map l.world.getWeight = [2147483647, 2147483647, 2] ∧
      (weightedRoundRobin l.world).1 = .panic := by
  constructor
  · have hrun : (exec Weighing.step (Weighing.start (threeWeights 1 1 1))
        [.weight "POST" "http://a" "2147483648"]).any (fun s => s.fleet.lanes[0]?.any fun l =>
          decide (l.world.backends.map (s.last 0) = [2147483648, 1, 1] ∧
            l.world.backends.map l.world.getWeight = [-2147483648, 1, 1])) = true := by decide +kernel
    obtain ⟨s, hs, hlane⟩ := (Option.any_eq_true _ _).mp hrun
    obtain ⟨l, hl, hweights⟩ := (Option.any_eq_true _ _).mp hlane
    exact ⟨s, l, hs, hl, of_decide_eq_true hweights⟩
  · exact ⟨_, rfl, by decide +kernel, by decide +kernel⟩

end Server
end ReverseProxyLb
