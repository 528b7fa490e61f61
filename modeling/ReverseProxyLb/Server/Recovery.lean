import ReverseProxyLb.Balancer.Ejection
import ReverseProxyLb.Proxy.Avoidance
import ReverseProxyLb.Server.Traffic

/-! A trip clears the health flag, and requests only turn to backends whose flag is set. So
something has to set it before traffic can bring a backend back. -/
namespace ReverseProxyLb.Server
open Lib Proxy Circuit

def Ejected (site : Site) (w : World) (b : Backend) : Prop :=
  site.deployment.outlier.isSome ∧ ∃ st, (b, st) ∈ w.stats ∧ st.ejected

section Frames
variable {site : Site} {b x : Backend}

/-- The record, the flag and the ejection of the backend are as before. -/
structure Unchanged (site : Site) (b : Backend) (σ σ' : Shared) : Prop where
  record : σ'.records b = σ.records b
  healthy : σ'.world.healthy b = σ.world.healthy b
  ejected : Ejected site σ'.world b ↔ Ejected site σ.world b

theorem Unchanged.refl (σ : Shared) : Unchanged site b σ σ := ⟨rfl, rfl, Iff.rfl⟩

theorem unchanged_call (hx : x ≠ b) (σ : Shared) (k : Call) : Unchanged site b σ (σ.call site x k) :=
  ⟨Function.update_of_ne (Ne.symm hx) .., Function.update_of_ne (Ne.symm hx) .., Iff.rfl⟩

theorem unchanged_observe (hx : x ≠ b) (σ : Shared) (ok : Bool) :
    Unchanged site b σ (σ.observe site x ok) := by
  unfold Shared.observe
  split
  · next od _ =>
    obtain ⟨hh, hs⟩ := OutlierDetection.observeOutcome_other _ od σ.now ok σ.world hx
    exact ⟨rfl, hh, and_congr_right fun _ => exists_congr fun st => and_congr_left fun _ => hs st⟩
  · exact .refl σ

theorem unchanged_answer {σ σ' : Shared} {o : Op} {a : Ans o} (hav : Avoids b (.env o a))
    (h : σ.answer site o a = some σ') : Unchanged site b σ σ' := by
  cases o with
  | getHealthy | getActiveConns =>
    simp only [Shared.answer] at h
    split_ifs at h
    cases h
    exact .refl σ
  | allow x =>
    simp only [Shared.answer] at h
    split_ifs at h
    cases h
    exact unchanged_call hav σ _
  | recordSuccess x => cases h; exact unchanged_call hav σ _
  | recordFailure x => cases h; exact unchanged_call hav σ _
  | observeOutcome x ok => cases h; exact unchanged_observe hav σ ok
  | _ => cases h; exact ⟨rfl, rfl, Iff.rfl⟩

theorem unchanged_serve {σ σ' : Shared} {l : Label Op Ans} (hl : l.Answers (Avoids b))
    (h : σ.serve site l = some σ') : Unchanged site b σ σ' := by
  unfold Shared.serve at h
  split at h
  · exact unchanged_answer hl h
  · exact unchanged_answer hl h
  · cases h
    exact .refl σ

theorem listed_serve {S : Backend → Prop} {σ σ' : Shared} {l : Label Op Ans}
    (hS : ∀ b ∈ σ.world.getHealthy, S b) (h : σ.serve site l = some σ') : l.Answers (Listed S) := by
  have hanswer : ∀ (o : Op) (a : Ans o), σ.answer site o a = some σ' → Listed S (.env o a) := by
    intro o a ha
    cases o with
    | getHealthy =>
      simp only [Shared.answer] at ha
      split_ifs at ha with he
      exact fun b hb => hS b (he ▸ hb)
    | _ => trivial
  cases l with
  | main c | spawned i c =>
    cases c with
    | answer o a => exact hanswer o a h
    | go | timeout => trivial
  | crash i => trivial

theorem unlisted_serve {σ σ' : Shared} {l : Label Op Ans} (hb : b ∉ σ.world.getHealthy)
    (h : σ.serve site l = some σ') : l.Answers (Unlisted b) := by
  have hS : ∀ x ∈ σ.world.getHealthy, x ≠ b := fun x hx hxb => hb (hxb ▸ hx)
  exact (listed_serve hS h).mono unlisted_of_listed

theorem reinstated_healthy {σ : Shared} (he : ¬ Ejected site σ.world b) :
    (σ.reinstated site).healthy b = σ.world.healthy b ∧
      (Ejected site (σ.reinstated site) b → Ejected site σ.world b) := by
  unfold Shared.reinstated Deployment.reinstated
  cases hod : site.deployment.outlier with
  | none => exact ⟨rfl, fun h => absurd h.1 (by simp [hod])⟩
  | some od =>
    have hno : ∀ st, (b, st) ∈ σ.world.stats → st.ejected = false := by
      intro st hst
      by_contra hej
      exact he ⟨by simp [hod], st, hst, by simpa using hej⟩
    dsimp only
    constructor
    · rw [OutlierDetection.reinstateExpired_healthy, Bool.or_eq_left_iff_imp]
      intro hexp
      obtain ⟨p, hp, hexp⟩ := List.any_eq_true.mp hexp
      obtain ⟨rfl, hexp⟩ : p.1 = b ∧ OutlierDetection.expired od (σ.clock 0) p.2 := by simpa using hexp
      simp [OutlierDetection.expired, hno p.2 hp] at hexp
    · rintro ⟨hsome, st, hst, hej⟩
      exact ⟨hsome, st, (OutlierDetection.mem_reinstateExpired hst hej).1, hej⟩

end Frames

/-- The breaker is open, the flag is clear, no ejection is to expire, and no request in flight has
turned to the backend. -/
structure Lost (site : Site) (b : Backend) (s : Traffic) : Prop where
  opened : (s.shared.cell b).getState = .stateOpen
  unhealthy : s.shared.world.healthy b = false
  retained : ¬ Ejected site s.shared.world b
  avoided : ∀ pool ∈ s.requests, AllConfined (Unlisted b) (Avoids b) pool

section Lost
variable {site : Site} {b : Backend} {s s' : Traffic}

theorem not_mem_getHealthy {w : World} (h : w.healthy b = false) : b ∉ w.getHealthy := by
  simp [World.getHealthy, h]

theorem Lost.start {w : World} {r : Request} {primary : Backend} (h : Lost site b s)
    (hh : w.healthy b = false) (he : ¬ Ejected site w b) (hp : primary ∈ w.getHealthy) :
    Lost site b (s.start site w r primary) := by
  have hne : primary ≠ b := fun heq => not_mem_getHealthy hh (heq ▸ hp)
  refine ⟨h.opened, hh, he, fun pool hpool => ?_⟩
  rcases List.mem_append.mp hpool with hold | hnew
  · exact h.avoided pool hold
  · rw [List.mem_singleton.mp hnew]
    exact ⟨avoids_proxyRequest _ r hne, fun x hx => nomatch hx⟩

theorem Lost.step {m : Move} (h : Lost site b s) (hs : Traffic.step site s m = some s') :
    Lost site b s' := by
  cases Traffic.step_cases hs with
  | wait t => exact ⟨h.opened, h.unhealthy, h.retained, h.avoided⟩
  | pinned hsticky hp => exact h.start h.unhealthy h.retained hp
  | balanced hp =>
    obtain ⟨hh, he⟩ := reinstated_healthy h.retained
    have hsub := site.deployment.stack.eligibleFrom_sublist (s.shared.reinstated site).getHealthy
    exact h.start (hh.trans h.unhealthy) (mt he h.retained) (hsub.subset hp)
  | work hi hpool hσ =>
    have hl := unlisted_serve (not_mem_getHealthy h.unhealthy) hσ
    obtain ⟨hav, hconf, -⟩ := (h.avoided _ (List.mem_of_getElem? hi)).step
      (fun _ ht => avoids_hedgeAttempt ht) hl hpool
    have hu := unchanged_serve hav hσ
    refine ⟨?_, hu.healthy.trans h.unhealthy, mt hu.ejected.mp h.retained,
      Pool.forall_mem_set h.avoided hconf⟩
    have hopen := h.opened
    simp only [Shared.cell, Cell.getState, Cell.stateFor] at hopen ⊢
    rw [hu.record]
    exact hopen

theorem Lost.run {ms : List Move} (h : Lost site b s) (hr : exec (Traffic.step site) s ms = some s') :
    Lost site b s' :=
  exec_keeps (fun _ _ _ hl hs => Lost.step hl hs) hr h

end Lost

/-- `n` more successes close the breaker: it is about to take probes, or it takes
them and none is outstanding. -/
def Probing (c : CircuitBreaker) (now : ℤ) (n : ℕ) (st : BackendState) : Prop :=
  (st.state = .stateOpen ∧ c.timeout ≤ Time.sub now st.lastFailure ∧ (n : ℤ) = c.successThreshold) ∨
    (st.state = .stateHalfOpen ∧ st.halfOpenInFlight = 0 ∧ st.successes + n = c.successThreshold)

structure Probed (c : CircuitBreaker) (n : ℕ) (st : BackendState) : Prop where
  state : st.state = .stateHalfOpen
  inFlight : st.halfOpenInFlight = 1
  successes : st.successes + n = c.successThreshold

section Probes
variable {c : CircuitBreaker} {now : ℤ} {n : ℕ} {st : BackendState}

theorem Probing.allow (h : Probing c now (n + 1) st) :
    (Circuit.allow c (fun _ => now) st).err = none ∧
      (Circuit.allow c (fun _ => now) st).setHealthy = none ∧
      Probed c (n + 1) (Circuit.allow c (fun _ => now) st).record := by
  rcases h with ⟨ho, ht, hn⟩ | ⟨hh, hf, hs⟩
  · simp only [Circuit.allow, ho, ht, if_true, transition]
    exact ⟨trivial, trivial, rfl, rfl, by simpa using hn⟩
  · have hpos := c.successThreshold_pos
    have hroom : ¬ maxProbes c ≤ 0 := by
      unfold maxProbes
      split <;> omega
    simp only [Circuit.allow, hh, hf, hroom, if_false]
    exact ⟨trivial, trivial, rfl, rfl, hs⟩

theorem Probed.last (h : Probed c 1 st) (clock : Clock) :
    (Circuit.recordSuccess c clock st).record.state = .stateClosed ∧
      (Circuit.recordSuccess c clock st).setHealthy = some true := by
  have hs : c.successThreshold ≤ st.successes + 1 := by
    have := h.successes
    push_cast at this
    omega
  simp [Circuit.recordSuccess, h.state, h.inFlight, hs, transition, resetWindow]

theorem Probed.more (h : Probed c (n + 2) st) (clock : Clock) :
    Probing c now (n + 1) (Circuit.recordSuccess c clock st).record ∧
      (Circuit.recordSuccess c clock st).setHealthy = none := by
  have hs : ¬ c.successThreshold ≤ st.successes + 1 := by
    have := h.successes
    push_cast at this
    omega
  simp only [Circuit.recordSuccess, h.state, h.inFlight, zero_lt_one, if_true, hs, if_false]
  refine ⟨.inr ⟨rfl, by simp, ?_⟩, trivial⟩
  have := h.successes
  push_cast at this ⊢
  omega

theorem sub_mono {t t' : ℤ} (h : t ≤ t') (u : ℤ) : Time.sub t u ≤ Time.sub t' u := by
  unfold Time.sub
  omega

theorem Probing.wait {now' : ℤ} (h : Probing c now n st) (hle : now ≤ now') : Probing c now' n st := by
  rcases h with ⟨ho, ht, hn⟩ | hh
  · exact .inl ⟨ho, ht.trans (sub_mono hle _), hn⟩
  · exact .inr hh

end Probes

def Alive (site : Site) (w : World) (b : Backend) : Prop := w.healthy b = true ∨ Ejected site w b

section Alive
variable {site : Site} {b : Backend}

theorem reinstated_keeps {σ : Shared} (h : σ.world.healthy b = true) :
    (σ.reinstated site).healthy b = true := by
  unfold Shared.reinstated Deployment.reinstated
  cases site.deployment.outlier with
  | none => exact h
  | some od => simp [OutlierDetection.reinstateExpired_healthy, h]

theorem Alive.wait {σ : Shared} (h : Alive site σ.world b)
    (hmax : ∀ od ∈ site.deployment.outlier, od.baseEjection ≤ Time.maxDuration) :
    ∃ t : ℕ, (({ σ with now := σ.now + t } : Shared).reinstated site).healthy b = true := by
  rcases h with h | ⟨hod, st, hst, hej⟩
  · exact ⟨0, reinstated_keeps h⟩
  · obtain ⟨od, hod⟩ := Option.isSome_iff_exists.mp hod
    obtain ⟨t, ht⟩ : ∃ t : ℕ, od.baseEjection ≤ Time.sub (σ.now + t) st.ejectedAt := by
      refine ⟨(od.baseEjection - (σ.now - st.ejectedAt)).toNat, ?_⟩
      have hle := hmax od hod
      unfold Time.sub
      omega
    have hexp : OutlierDetection.expired od (σ.now + t) st = true := by
      simp [OutlierDetection.expired, hej, ht]
    refine ⟨t, ?_⟩
    unfold Shared.reinstated Deployment.reinstated
    rw [hod]
    dsimp only
    rw [OutlierDetection.reinstateExpired_healthy, Bool.or_eq_true]
    exact .inr (List.any_eq_true.mpr ⟨(b, st), hst, by simpa [Shared.clock] using hexp⟩)

theorem Alive.observe {σ : Shared} (h : σ.world.healthy b = true) (ok : Bool) :
    Alive site (σ.observe site b ok).world b := by
  unfold Shared.observe
  split
  · next od hod =>
    rcases OutlierDetection.observeOutcome_spec _ od σ.now b ok
      σ.world with ⟨st, -, he⟩ | ⟨st, st', hej, he⟩
    · left
      rw [he]
      exact h
    · right
      refine ⟨by simp [hod], st', ?_, hej⟩
      rw [he]
      exact OutlierDetection.mem_setStat_self.mpr rfl
  · exact .inl h

end Alive

/-- The shared state when the primary has answered at once, before the result is
reported. -/
def Shared.answered (site : Site) (b : Backend) (σ : Shared) : Shared :=
  let admitted := σ.call site b (.allow σ.clock)
  { admitted with world := admitted.world.decrConn b }.observe site b true

def Shared.handled (site : Site) (b : Backend) (σ : Shared) : Shared :=
  (σ.answered site b).call site b (.recordSuccess (σ.answered site b).clock)

/-- The members of the group, their weights and their connections are the same. -/
structure SameGroup (w w' : World) : Prop where
  backends : w'.backends = w.backends
  weight : w'.weight = w.weight
  activeConns : w'.activeConns = w.activeConns

section Play
variable {site : Site} {b : Backend} {σ : Shared}

theorem plays_atCapacity (h : 0 < b.maxConns → σ.world.getActiveConns b ≤ b.maxConns) :
    Plays (Shared.answer site) Good σ (atCapacity b) σ false := by
  unfold atCapacity
  split_ifs with hpos
  · have hroom : decide (b.maxConns < σ.world.getActiveConns b) = false := by
      simpa using h hpos
    rw [← hroom]
    exact (plays_perform (o := Op.getActiveConns b) _ trivial (if_pos rfl)).bind (.ret _ _)
  · exact .ret _ _

theorem plays_available (hcb : site.proxy.circuitBreaker)
    (h : 0 < b.maxConns → σ.world.getActiveConns b ≤ b.maxConns)
    (hallow : (σ.cell b).err site.breaker (.allow σ.clock) = none) :
    Plays (Shared.answer site) Good σ
      (available site.proxy b) (σ.call site b (.allow σ.clock)) true := by
  refine (plays_atCapacity h).bind ?_
  unfold admitted
  simp only [hcb, if_true, Bool.false_eq_true, if_false]
  exact (plays_perform (o := Op.allow b) none trivial (if_pos hallow.symm)).bind (.ret _ _)

theorem plays_doRequest (site : Site) (b : Backend) (σ : Shared) :
    ∃ ra, Plays (Shared.answer site) Good σ (doRequest site.proxy b) σ
      { err := none, cls := .ok, written := true, retryAfter := ra } := by
  refine ⟨if site.proxy.retryConfig.honorRetryAfter then 0 else 0, ?_⟩
  refine (plays_perform (o := Op.recordBackendRequest b) () trivial rfl).bind ?_
  refine (plays_perform (o := Op.proxyFor b) none rfl rfl).bind ?_
  refine (plays_perform (o := Op.serveHTTP .client b) (.served none true 200 0) rfl rfl).bind ?_
  refine (plays_perform (o := Op.count (.backendLatency b)) () trivial rfl).bind ?_
  exact (plays_perform (o := Op.observeLatency b) () trivial rfl).bind (.ret _ _)

theorem plays_attemptBackend (site : Site) (b : Backend) (σ : Shared) {r : Request}
    (hr : isIdempotent r = false) :
    ∃ ra, Plays (Shared.answer site) Good σ (attemptBackend site.proxy r b)
      { σ with world := σ.world.decrConn b }
      { err := none, cls := .ok, written := true, retryAfter := ra } := by
  have hrelease : Plays (Shared.answer site) Good σ
      (decrConn b) { σ with world := σ.world.decrConn b } () :=
    .op () trivial rfl (.ret _ _)
  obtain ⟨ra, hrequest⟩ := plays_doRequest site b σ
  refine ⟨ra, Plays.deferring ?_ hrelease⟩
  refine (plays_perform (o := Op.count .retryReqs) () trivial rfl).bind ?_
  simp only [hr, Bool.false_eq_true, if_false]
  refine Plays.bind (.ret _ true) ?_
  exact hrequest.bind (.ret _ _)

theorem plays_proxyRequest (hcb : site.proxy.circuitBreaker) (hok : site.proxy.tripOn .ok = false)
    {r : Request} (hr : isIdempotent r = false) (group : List Backend)
    (h : 0 < b.maxConns → σ.world.getActiveConns b ≤ b.maxConns)
    (hallow : (σ.cell b).err site.breaker (.allow σ.clock) = none) :
    Plays (Shared.answer site) Good σ (proxyRequest site.proxy group r b) (σ.handled site b) () := by
  have hseq : proxyRequest site.proxy group r b = sequential site.proxy group r b := by
    simp [proxyRequest, hr]
  rw [hseq]
  obtain ⟨ra, hattempt⟩ := plays_attemptBackend site b (σ.call site b (.allow σ.clock)) hr
  have hvisit : Plays (Shared.answer site) Good σ
      (visit site.proxy r b none false) (σ.handled site b) .done := by
    refine (plays_perform (o := Op.note (.visit b)) () trivial rfl).bind ?_
    refine (plays_available hcb h hallow).bind ?_
    refine hattempt.bind ?_
    refine (plays_perform (o := Op.observeOutcome b true) () trivial rfl).bind ?_
    have hreport : recordCircuit site.proxy b .ok = recordSuccess b := by
      simp [recordCircuit, hcb, hok]
    dsimp only
    rw [hreport]
    refine (plays_perform (o := Op.recordSuccess b) () trivial rfl).bind ?_
    exact .ret _ _
  exact hvisit.bind (.ret _ ())

theorem exec_of_plays {prog : Act Unit} {σ' : Shared} {a : Unit}
    (h : Plays (Shared.answer site) Good σ prog σ' a) (requests : List Handlers) {i : ℕ}
    {pool : Handlers} (hi : requests[i]? = some pool) (hm : pool.main = prog)
    (hc : pool.crashed = false) :
    ∃ ms requests', (∀ m ∈ ms, m.Succeeds ∧ ∀ s, m.Returned site s) ∧
      exec (Traffic.step site) ⟨σ, requests⟩ ms = some ⟨σ', requests'⟩ := by
  induction h generalizing requests pool with
  | ret σ a => exact ⟨[], requests, by simp, rfl⟩
  | @op σ σ₁ σ₂ o k a res hok h hk ih =>
    let pool' := Pool.record (hedgeAttempt site.proxy) { pool with main := k a } none (.env o a)
    have hstep : Pool.step (hedgeAttempt site.proxy) pool (.main (.answer o a)) = some pool' := by
      simp [Pool.step, hc, hm, advance, pool']
    have hlt : i < requests.length := (List.getElem?_eq_some_iff.mp hi).1
    obtain ⟨ms, requests', hgood, hexec⟩ :=
      ih (requests.set i pool') (List.getElem?_set_self hlt) rfl hc
    refine ⟨.work i (.main (.answer o a)) :: ms, requests',
      List.forall_mem_cons.mpr ⟨⟨hok, fun _ => trivial⟩, hgood⟩, ?_⟩
    have hserve : σ.serve site (.main (.answer o a)) = some σ₁ := h
    rw [exec_cons, Traffic.step]
    dsimp only
    rw [hi]
    dsimp only
    rw [hstep, Option.bind_some, hserve]
    exact hexec

theorem observe_fleet (σ : Shared) (ok : Bool) : SameGroup σ.world (σ.observe site b ok).world := by
  unfold Shared.observe
  split
  · next od hod =>
    rcases OutlierDetection.observeOutcome_spec _ od σ.now b ok
      σ.world with ⟨st, -, he⟩ | ⟨st, st', -, he⟩ <;>
      rw [he] <;> exact ⟨rfl, rfl, rfl⟩
  · exact ⟨rfl, rfl, rfl⟩

end Play

/-- One more reservation stays within `max_conns`. -/
def Room (w : World) (b : Backend) : Prop :=
  0 < b.maxConns → (w.incrConn b).getActiveConns b ≤ b.maxConns

def Unfiltered (site : Site) (w : World) (b : Backend) : Prop :=
  ∀ pool ⊆ w.backends, b ∈ pool → b ∈ site.deployment.stack.eligibleFrom pool

def ReturnedIfEligible (site : Site) (w : World) (b : Backend) : Prop :=
  ∀ σ : Shared, SameGroup w σ.world → b ∈ σ.eligible site → σ.Returns site b

/-- What the way back takes of the settings and of the group. -/
structure WayBack (site : Site) (w : World) (b : Backend) : Prop where
  breaker : site.proxy.circuitBreaker
  tripOn : site.proxy.tripOn .ok = false
  ejection : ∀ od ∈ site.deployment.outlier, od.baseEjection ≤ Time.maxDuration
  member : b ∈ w.backends
  unfiltered : Unfiltered site w b
  returned : ReturnedIfEligible site w b
  room : Room w b

/-- The group is the one of the start, the backend may be selected again, and `n` more
successes close its breaker. -/
structure Reviving (site : Site) (w : World) (b : Backend) (n : ℕ) (s : Traffic) : Prop where
  group : SameGroup w s.shared.world
  alive : Alive site s.shared.world b
  probing : Probing site.breaker s.shared.now n (s.shared.cell b).stateFor

section Rounds
variable {site : Site} {w : World} {b : Backend} {n : ℕ}

theorem reinstated_fleet (σ : Shared) : SameGroup σ.world (σ.reinstated site) := by
  unfold Shared.reinstated Deployment.reinstated
  cases site.deployment.outlier <;> exact ⟨rfl, rfl, rfl⟩

theorem SameGroup.trans {w w' w'' : World} (h : SameGroup w w') (h' : SameGroup w' w'') :
    SameGroup w w'' :=
  ⟨h'.backends.trans h.backends, h'.weight.trans h.weight, h'.activeConns.trans h.activeConns⟩

theorem WayBack.eligible (h : WayBack site w b) {σ : Shared} (hg : SameGroup w σ.world)
    (hh : (σ.reinstated site).healthy b = true) : b ∈ σ.eligible site := by
  have hback : (σ.reinstated site).backends = w.backends := (hg.trans (reinstated_fleet σ)).backends
  apply h.unfiltered
  · intro x hx
    rw [← hback]
    exact (List.mem_filter.mp hx).1
  · refine List.mem_filter.mpr ⟨?_, hh⟩
    rw [hback]
    exact h.member

theorem Reviving.round {s : Traffic} (h : Reviving site w b (n + 1) s) (hway : WayBack site w b) :
    ∃ (ms : List Move) (σ : Shared) (requests : List Handlers),
      Meets (Traffic.step site) (fun s m => m.Succeeds ∧ m.Returned site s) s ms ∧
      exec (Traffic.step site) s ms = some ⟨σ.handled site b, requests⟩ ∧
      σ.world.healthy b = true ∧ SameGroup (w.incrConn b) σ.world ∧
      Probing site.breaker σ.now (n + 1) (σ.cell b).stateFor := by
  obtain ⟨t, ht⟩ := h.alive.wait hway.ejection
  let σ₁ : Shared := { s.shared with now := s.shared.now + t }
  have hgroup : SameGroup w (σ₁.reinstated site) := h.group.trans (reinstated_fleet σ₁)
  let σ : Shared := { σ₁ with world := (σ₁.reinstated site).incrConn b }
  have hreserved : SameGroup (w.incrConn b) σ.world :=
    ⟨hgroup.backends, hgroup.weight,
      congrArg (fun conns => Function.update conns b (conns b + 1)) hgroup.activeConns⟩
  have heligible : b ∈ σ₁.eligible site := hway.eligible (σ := σ₁) h.group ht
  have hprobing : Probing site.breaker σ.now (n + 1) (σ.cell b).stateFor :=
    h.probing.wait (by change s.shared.now ≤ s.shared.now + t; omega)
  let r : Request := { method := "POST" }
  let pool : Handlers := { main := proxyRequest site.proxy (σ₁.reinstated site).backends r b }
  have hplays : Plays (Shared.answer site) Good σ pool.main (σ.handled site b) () := by
    refine plays_proxyRequest hway.breaker hway.tripOn (by decide) _ (fun hpos => ?_) hprobing.allow.1
    have hroom := hway.room hpos
    rwa [World.getActiveConns, ← hreserved.activeConns] at hroom
  obtain ⟨ms, requests, hgood, hexec⟩ :=
    exec_of_plays hplays (s.requests ++ [pool]) (i := s.requests.length) (by simp) rfl rfl
  have hserved : ∀ s, Meets (Traffic.step site) (fun s m => m.Succeeds ∧ m.Returned site s) s ms := by
    intro s
    apply (meets_of_forall hgood).mono
    exact fun s m hm => ⟨hm.1, hm.2 s⟩
  refine ⟨.wait t :: .balanced r b :: ms, σ, requests, ?_, ?_, ht, hreserved, hprobing⟩
  · refine ⟨⟨trivial, trivial⟩, fun s₁ hs₁ => ⟨⟨trivial, ?_⟩, fun s₂ _ => hserved s₂⟩⟩
    cases hs₁
    exact hway.returned σ₁ h.group heligible
  · rw [exec_cons, Traffic.step, Option.bind_some, exec_cons, Traffic.step, if_pos heligible]
    exact hexec

end Rounds

def Idle (s : Traffic) : Prop := ∀ pool ∈ s.requests, Ended pool.main ∧ ∀ x ∈ pool.spawned, Ended x.2

theorem Idle.avoided {s : Traffic} (h : Idle s) (b : Backend) :
    ∀ pool ∈ s.requests, AllConfined (Unlisted b) (Avoids b) pool := by
  have hended : ∀ prog : Act Unit, Ended prog →
      Confined (Unlisted b) (Avoids b) (fun _ => True) prog := by
    intro prog he
    cases prog with
    | ret | panic | diverge => trivial
    | op | fork | send | recv | select => exact he.elim
  exact fun pool hp => ⟨hended _ (h pool hp).1, fun x hx => hended _ ((h pool hp).2 x hx)⟩

/-- A round-robin group with a breaker that trips on the first failure. -/
def guarded : Site where
  proxy := { circuitBreaker := true }
  breaker := newCircuitBreakerWithConfig
    { mode := .modeConsecutive, failureThreshold := 1, successThreshold := 2
      timeout := 30 * Time.second, rollingWindow := 0, errorRateThreshold := 0, minRequests := 0 }
  deployment := { outlier := none, stack := .base .roundRobin }

end ReverseProxyLb.Server
