import ReverseProxyLb.Server.Drain

/-! The admin API closes a circuit by dropping its record. The health flag, which was
cleared when the circuit opened, stays as it is. -/
namespace ReverseProxyLb.Server
open Lib Proxy Circuit

namespace Fleet

/-- `Reset` on the backend of a group, if the server has a breaker. -/
def resetCircuit (f : Fleet) (i : ℕ) (b : Backend) : Fleet where
  lanes := f.lanes.modify i fun l =>
    if l.site.proxy.circuitBreaker then l.setShared (l.traffic.shared.call l.site b .reset) else l

def handleAdminCircuitReset (f : Fleet) (method url : String) : AdminResponse × Fleet :=
  match f.adminBackendByURL method url with
  | .error resp => (resp, f)
  | .ok (i, b) => ({ code := 200 }, f.resetCircuit i b)

end Fleet

section Reset
variable {f : Fleet} {l l' : Lane} {i j : ℕ} {b b' : Backend}

theorem call_reset (site : Site) (σ : Shared) (b : Backend) :
    σ.call site b .reset = { σ with records := Function.update σ.records b none } := by
  have hworld :
      ({ σ.world with healthy := Function.update σ.world.healthy b (σ.world.healthy b) } : World) =
      σ.world := by
    rw [Function.update_eq_self]
  change ({ σ with
    world := { σ.world with healthy := Function.update σ.world.healthy b (σ.world.healthy b) }
    records := Function.update σ.records b none } : Shared) = _
  rw [hworld]

theorem resetCircuit_lane (hl : f.lanes[i]? = some l) (hbreaker : l.site.proxy.circuitBreaker = true)
    (j : ℕ) (b' : Backend) : ∃ l', (f.resetCircuit j b').lanes[i]? = some l' ∧
      l'.traffic.shared.world = l.traffic.shared.world ∧ l'.traffic.shared.records =
        if j = i then Function.update l.traffic.shared.records b' none
          else l.traffic.shared.records := by
  unfold Fleet.resetCircuit
  rw [List.getElem?_modify, hl]
  refine ⟨_, rfl, ?_⟩
  by_cases hj : j = i
  · simp only [hj, if_true, hbreaker, Lane.setShared, call_reset, and_self]
  · simp only [hj, if_false, and_self]

theorem resetCircuit_closed_iff (hl : f.lanes[i]? = some l)
    (hbreaker : l.site.proxy.circuitBreaker = true)
    (hopen : (l.traffic.shared.cell b).getState ≠ .stateClosed) (j : ℕ) (b' : Backend) :
    ∃ l', (f.resetCircuit j b').lanes[i]? = some l' ∧
      l'.traffic.shared.world = l.traffic.shared.world ∧
      ((l'.traffic.shared.cell b).getState = .stateClosed ↔ j = i ∧ b' = b) := by
  obtain ⟨l', hl', hworld, hrecords⟩ := resetCircuit_lane hl hbreaker j b'
  refine ⟨l', hl', hworld, ?_⟩
  change (l'.traffic.shared.records b |>.getD {}).state = .stateClosed ↔ _
  rw [hrecords]
  split_ifs with hj
  · by_cases hb : b' = b
    · subst hb
      simp [hj]
    · rw [Function.update_of_ne (Ne.symm hb)]
      exact ⟨fun h => absurd h hopen, fun h => absurd h.2 hb⟩
  · exact ⟨fun h => absurd h hopen, fun h => absurd h.1 hj⟩

theorem handleAdminCircuitReset_eq (f : Fleet) (url : String) :
    (f.handleAdminCircuitReset "POST" url).2 =
      if url = "" then f
        else (f.findBackend url).elim f fun found => f.resetCircuit found.1 found.2 := by
  unfold Fleet.handleAdminCircuitReset Fleet.adminBackendByURL
  rw [if_neg (not_not.mpr rfl)]
  by_cases hurl : url = ""
  · rw [if_pos hurl, if_pos hurl]
  · rw [if_neg hurl, if_neg hurl]
    cases f.findBackend url <;> rfl

theorem mem_getHealthy {w : World} : b ∈ w.getHealthy ↔ b ∈ w.backends ∧ w.healthy b = true :=
  List.mem_filter

theorem drained_of_sole (hsole : f.Sole b.url) (hl : f.lanes[i]? = some l) (hb : b ∈ l.backends)
    (hflag : l.traffic.shared.world.healthy b = false) : Fleet.Drained b.url f f := by
  have hfound := hsole (l, i) (List.mem_zipIdx_iff_getElem?.mpr hl) b hb rfl
  constructor
  intro j l₀ k hl₀ hk
  obtain rfl : l₀ = k := Option.some.inj (hl₀.symm.trans hk)
  refine ⟨fun x hx hu => ?_, le_rfl, by simp⟩
  have hfound' := hsole (l₀, j) (List.mem_zipIdx_iff_getElem?.mpr hl₀) x hx hu
  obtain ⟨rfl, rfl⟩ : i = j ∧ b = x := by simpa using hfound.symm.trans hfound'
  obtain rfl : l = l₀ := Option.some.inj (hl.symm.trans hl₀)
  exact hflag

theorem Fleet.Drained.resetCircuit {u : String} (h : Fleet.Drained u f f) (j : ℕ) (b' : Backend) :
    Fleet.Drained u (f.resetCircuit j b') (f.resetCircuit j b') := by
  constructor
  intro i l₀ k hl₀ hk
  obtain rfl : l₀ = k := Option.some.inj (hl₀.symm.trans hk)
  unfold Fleet.resetCircuit at hl₀
  rw [List.getElem?_modify] at hl₀
  obtain ⟨l, hl, rfl⟩ := Option.map_eq_some_iff.mp hl₀
  have hold := h.lanes i l l hl hl
  split_ifs
  · rw [call_reset]
    exact ⟨hold.flags, le_rfl, by simp⟩
  · exact hold
  · exact hold

end Reset

/-- A backend whose circuit is not closed is closed and healthy after a reset for its URL exactly
if it is the one that the API finds and its flag was set. If the flag was clear, no later request
touches it while no turn sets the flag. -/
theorem circuit_reset_restores_iff {f : Fleet} {i : ℕ} {l : Lane} {b : Backend}
    (hl : f.lanes[i]? = some l) (hb : b ∈ l.backends) (hbreaker : l.site.proxy.circuitBreaker = true)
    (hopen : (l.traffic.shared.cell b).getState = .stateOpen ∨
      (l.traffic.shared.cell b).getState = .stateHalfOpen) :
    ((∃ l', (f.handleAdminCircuitReset "POST" b.url).2.lanes[i]? = some l' ∧
        (l'.traffic.shared.cell b).getState = .stateClosed ∧ b ∈ l'.traffic.shared.world.getHealthy) ↔
      b.url ≠ "" ∧ f.findBackend b.url = some (i, b) ∧ l.traffic.shared.world.healthy b = true) ∧
    (f.Sole b.url → l.traffic.shared.world.healthy b = false → ∀ ts f',
      Meets Fleet.step (Fleet.Leaves b.url) (f.handleAdminCircuitReset "POST" b.url).2 ts →
      exec Fleet.step (f.handleAdminCircuitReset "POST" b.url).2 ts = some f' →
      Fleet.Spared b.url (f.handleAdminCircuitReset "POST" b.url).2 f') := by
  have hnot : (l.traffic.shared.cell b).getState ≠ .stateClosed := by
    intro h
    rw [h] at hopen
    simp at hopen
  rw [handleAdminCircuitReset_eq]
  constructor
  · by_cases hurl : b.url = ""
    · rw [if_pos hurl]
      constructor
      · rintro ⟨l', hl', hclosed, -⟩
        obtain rfl : l = l' := Option.some.inj (hl.symm.trans hl')
        exact absurd hclosed hnot
      · exact fun h => absurd hurl h.1
    · rw [if_neg hurl]
      cases hfound : f.findBackend b.url with
      | none =>
        constructor
        · rintro ⟨l', hl', hclosed, -⟩
          obtain rfl : l = l' := Option.some.inj (hl.symm.trans hl')
          exact absurd hclosed hnot
        · rintro ⟨-, h, -⟩
          cases h
      | some found =>
        obtain ⟨l', hl', hworld, hiff⟩ := resetCircuit_closed_iff hl hbreaker hnot found.1 found.2
        constructor
        · rintro ⟨k, hk, hclosed, hhealthy⟩
          obtain rfl : l' = k := Option.some.inj (hl'.symm.trans hk)
          rw [hworld, mem_getHealthy] at hhealthy
          exact ⟨hurl, congrArg some (Prod.ext (hiff.mp hclosed).1 (hiff.mp hclosed).2), hhealthy.2⟩
        · rintro ⟨-, hsame, hflag⟩
          cases hsame
          refine ⟨l', hl', hiff.mpr ⟨rfl, rfl⟩, ?_⟩
          rw [hworld, mem_getHealthy]
          exact ⟨hb, hflag⟩
  · intro hsole hflag ts f' hm hrun
    have hdrained := drained_of_sole hsole hl hb hflag
    have hreset : Fleet.Drained b.url
        (if b.url = "" then f
          else (f.findBackend b.url).elim f fun found => f.resetCircuit found.1 found.2)
        (if b.url = "" then f
          else (f.findBackend b.url).elim f fun found => f.resetCircuit found.1 found.2) := by
      split_ifs
      · exact hdrained
      · cases f.findBackend b.url with
        | none => exact hdrained
        | some found => exact hdrained.resetCircuit found.1 found.2
    exact (exec_invariant (fun _ _ _ hi hl hs => hi.step hl hs) hm hrun hreset).spared

/-- The first request in a group goes to `b`, whose connection is refused; the breaker trips. -/
def refusedIn (i : ℕ) (b : Backend) : List FleetTurn :=
  let reply (o : Op) (answer : Ans o) : Move := .work 0 (.main (.answer o answer))
  let ms : List Move :=
    [.balanced { method := "POST" } b, reply (.note (.visit b)) (), reply (.allow b) none,
      reply (.count .retryReqs) (), reply (.recordBackendRequest b) (), reply (.proxyFor b) none,
      reply (.serveHTTP .client b) (.served (some { dial := true }) false 0 0),
      reply (.count (.backendLatency b)) (), reply (.count (.backendError b)) (),
        reply (.decrConn b) (),
      reply (.observeOutcome b false) (), reply (.recordFailure b) ()]
  ms.map fun m => .lane i (.traffic m)

/-- A probe has set the flag of the tripped backend before the reset. -/
theorem circuit_reset_restores_probed :
    let a : Backend := { addr := 1, url := "http://a:8000" }
    ∃ (f : Fleet) (l l' : Lane),
      exec Fleet.step { lanes := [newLane [a]] }
        (refusedIn 0 a ++ [.lane 0 (.probe a true), .lane 0 .mark]) = some f ∧
      f.lanes[0]? = some l ∧ (l.traffic.shared.cell a).getState = .stateOpen ∧
      (f.handleAdminCircuitReset "POST" a.url).2.lanes[0]? = some l' ∧
      (l'.traffic.shared.cell a).getState = .stateClosed ∧ a ∈ l'.traffic.shared.world.getHealthy := by
  intro a
  have hrun : (exec Fleet.step { lanes := [newLane [a]] }
      (refusedIn 0 a ++ [.lane 0 (.probe a true), .lane 0 .mark])).any (fun f =>
        f.lanes[0]?.any fun l =>
        l.site.proxy.circuitBreaker && decide (a ∈ l.backends) &&
          decide ((l.traffic.shared.cell a).getState = .stateOpen) &&
            decide (f.findBackend a.url = some (0, a)) &&
          l.traffic.shared.world.healthy a) = true := by
    decide +kernel
  obtain ⟨f, hf, hlane⟩ := (Option.any_eq_true _ _).mp hrun
  obtain ⟨l, hl, hstate⟩ := (Option.any_eq_true _ _).mp hlane
  simp only [Bool.and_eq_true, decide_eq_true_eq] at hstate
  obtain ⟨⟨⟨⟨hbreaker, hmem⟩, hopen⟩, hfound⟩, hflag⟩ := hstate
  obtain ⟨l', hl', hclosed, hhealthy⟩ :=
    (circuit_reset_restores_iff hl hmem hbreaker (.inl hopen)).1.mpr ⟨by decide, hfound, hflag⟩
  exact ⟨f, l, l', hf, hl, hopen, hl', hclosed, hhealthy⟩

/-- The breaker trips and clears the flag of the only backend. The reset closes the circuit,
and the backend is not healthy. -/
theorem circuit_reset_leaves_unhealthy :
    let a : Backend := { addr := 1, url := "http://a:8000" }
    ∃ f ∈ exec Fleet.step { lanes := [newLane [a]] } (refusedIn 0 a),
      (f.lanes.map fun l => ((l.traffic.shared.cell a).getState, l.traffic.shared.world.getHealthy)) =
        [(.stateOpen, [])] ∧
      (f.handleAdminCircuitReset "POST" a.url).1 = { code := 200 } ∧
      ((f.handleAdminCircuitReset "POST" a.url).2.lanes.map fun l =>
        ((l.traffic.shared.cell a).getState, l.traffic.shared.world.getHealthy)) =
          [(.stateClosed, [])] := by
  decide +kernel

end ReverseProxyLb.Server
