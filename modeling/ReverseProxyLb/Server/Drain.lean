import ReverseProxyLb.Server.Flags

/-! The admin API drains a backend by clearing its health flag, which others write too. One URL
may belong to several groups; the API clears the flag of the first. -/
namespace ReverseProxyLb.Server
open Lib Proxy Circuit Health OutlierDetection

/-- A group of the server, with its requests and its health checker. -/
structure Lane where
  site : Site
  checker : HealthChecker
  traffic : Traffic := {}
  checking : Checking := {}

inductive LaneTurn where
  | traffic (m : Move)
  /-- A call of the breaker that no request makes, as by the replica syncer. -/
  | call (b : Backend) (k : Call)
  | probe (b : Backend) (ok : Bool)
  | mark

namespace Lane

def backends (l : Lane) : List Backend := l.traffic.shared.world.backends

def setShared (l : Lane) (σ : Shared) : Lane := { l with traffic := { l.traffic with shared := σ } }

def step (l : Lane) : LaneTurn → Option Lane
  | .traffic m => (l.traffic.step l.site m).map fun t => { l with traffic := t }
  | .call b k => some (l.setShared (l.traffic.shared.call l.site b k))
  | .probe b ok =>
    (l.checking.probe l.checker l.traffic.shared b ok).map fun k => { l with checking := k }
  | .mark => (l.checking.mark l.traffic.shared).map fun p => { l.setShared p.1 with checking := p.2 }

end Lane

/-- The groups in the order of `balancerGroups`. -/
structure Fleet where
  lanes : List Lane

/-- The status, the `Allow` header and the message. -/
structure AdminResponse where
  code : ℤ
  allow : String := ""
  msg : String := ""
  deriving DecidableEq

namespace Fleet

def findBackend (f : Fleet) (url : String) : Option (ℕ × Backend) :=
  f.lanes.zipIdx.findSome? fun (l, i) => (l.backends.find? fun b => b.url = url).map fun b => (i, b)

def adminBackendByURL (f : Fleet) (method url : String) : Except AdminResponse (ℕ × Backend) :=
  if method ≠ "POST" then .error { code := 405, allow := "POST", msg := "Method Not Allowed" }
  else if url = "" then .error { code := 400, msg := "missing url parameter" }
  else match f.findBackend url with
    | none => .error { code := 404, msg := "backend not found" }
    | some found => .ok found

def setHealthy (f : Fleet) (i : ℕ) (b : Backend) (v : Bool) : Fleet where
  lanes := f.lanes.modify i fun l => l.setShared (l.traffic.shared.setHealthy b v)

/-- What the handlers for `drain` and `undrain` share. -/
def handleAdminFlag (v : Bool) (f : Fleet) (method url : String) : AdminResponse × Fleet :=
  match f.adminBackendByURL method url with
  | .error resp => (resp, f)
  | .ok (i, b) => ({ code := 200 }, f.setHealthy i b v)

def handleAdminDrain (f : Fleet) (method url : String) : AdminResponse × Fleet :=
  handleAdminFlag false f method url

def handleAdminUndrain (f : Fleet) (method url : String) : AdminResponse × Fleet :=
  handleAdminFlag true f method url

end Fleet

inductive FleetTurn where
  | lane (i : ℕ) (t : LaneTurn)
  | drain (method url : String)
  | undrain (method url : String)

namespace Fleet

def step (f : Fleet) : FleetTurn → Option Fleet
  | .lane i t => f.lanes[i]?.bind fun l => (l.step t).map fun l' => { lanes := f.lanes.set i l' }
  | .drain method url => some (f.handleAdminDrain method url).2
  | .undrain method url => some (f.handleAdminUndrain method url).2

def Sole (f : Fleet) (u : String) : Prop :=
  ∀ p ∈ f.lanes.zipIdx, ∀ b ∈ p.1.backends, b.url = u → f.findBackend u = some (p.2, b)

/-- No request that arrived between `f₀` and `f` has touched a backend with the URL. -/
def Spared (u : String) (f₀ f : Fleet) : Prop :=
  ∀ p ∈ f₀.lanes.zip f.lanes, ∀ pool ∈ p.2.traffic.requests.drop p.1.traffic.requests.length,
    ∀ x ∈ pool.log, Inside (·.url ≠ u) x.2

end Fleet

def Lane.Leaves (u : String) (l : Lane) : LaneTurn → Prop
  | .mark => ∀ w ∈ l.checking.pending, w.2 = true → w.1.url ≠ u
  | .call b k => b.url = u → ¬ Closing l.site.breaker (l.traffic.shared.cell b) k
  | .traffic (.work _ (.main (.answer (.recordSuccess b) _)))
  | .traffic (.work _ (.spawned _ (.answer (.recordSuccess b) _))) =>
    b.url = u → ¬ Closing l.site.breaker
      (l.traffic.shared.cell b) (.recordSuccess l.traffic.shared.clock)
  | .traffic (.balanced _ _) => ∀ b ∈ l.backends, b.url = u → ¬ Expiring l.site l.traffic.shared b
  | _ => True

def Fleet.Leaves (u : String) (f : Fleet) : FleetTurn → Prop
  | .lane i t => ∀ l ∈ f.lanes[i]?, l.Leaves u t
  | .drain _ _ => True
  | .undrain _ url => url ≠ u

instance (u : String) (f : Fleet) : Decidable (f.Sole u) := by
  unfold Fleet.Sole
  infer_instance

instance (u : String) (f₀ f : Fleet) : Decidable (Fleet.Spared u f₀ f) := by
  unfold Fleet.Spared
  infer_instance

instance (u : String) (l : Lane) (t : LaneTurn) : Decidable (l.Leaves u t) := by
  unfold Lane.Leaves
  split <;> infer_instance

instance (u : String) (f : Fleet) (t : FleetTurn) : Decidable (f.Leaves u t) := by
  unfold Fleet.Leaves
  split <;> infer_instance

section Lane
variable {u : String} {l l' : Lane} {n : ℕ}

/-- The request keeps away from the URL, and has done so. -/
structure Sheltered (u : String) (pool : Handlers) : Prop where
  confined : AllConfined (Listed (·.url ≠ u)) (Inside (·.url ≠ u)) pool
  log : ∀ x ∈ pool.log, Inside (·.url ≠ u) x.2

/-- The flags of the URL's backends are clear, and all requests but the first `n` are
sheltered. -/
structure Lane.Drained (u : String) (n : ℕ) (l : Lane) : Prop where
  flags : ∀ b ∈ l.backends, b.url = u → l.traffic.shared.world.healthy b = false
  older : n ≤ l.traffic.requests.length
  newer : ∀ pool ∈ l.traffic.requests.drop n, Sheltered u pool

theorem sheltered_start {p : Settings} {group : List Backend} (r : Request) {primary : Backend}
    (h : primary.url ≠ u) : Sheltered u { main := proxyRequest p group r primary } :=
  ⟨⟨inside_proxyRequest group r h, by simp⟩, by simp⟩

theorem Sheltered.step {p : Settings} {pool pool' : Handlers} {lab : Label Op Ans}
    (h : Sheltered u pool) (hl : lab.Answers (Listed (·.url ≠ u)))
    (hs : Pool.step (hedgeAttempt p) pool lab = some pool') :
    Sheltered u pool' := by
  obtain ⟨-, hconf, hlog⟩ := h.confined.step (fun _ hb => inside_hedgeAttempt hb) hl hs
  exact ⟨hconf, hlog h.log⟩

theorem answer_flag {site : Site} {σ σ' : Shared} {o : Op} {a : Ans o} {b : Backend}
    (h : σ.answer site o a = some σ') (hb : σ'.world.healthy b = true) :
    σ.world.healthy b = true ∨
      (o = .recordSuccess b ∧ Closing site.breaker (σ.cell b) (.recordSuccess σ.clock)) := by
  cases o with
  | getHealthy | getActiveConns =>
    simp only [Shared.answer] at h
    split_ifs at h
    cases h
    exact .inl hb
  | allow x =>
    simp only [Shared.answer] at h
    split_ifs at h
    cases h
    rcases call_flag hb with hold | ⟨-, hclosing⟩
    · exact .inl hold
    · obtain ⟨_, hk, -⟩ := hclosing.recovery
      cases hk
  | recordSuccess x =>
    cases h
    rcases call_flag hb with hold | ⟨rfl, hclosing⟩
    · exact .inl hold
    · exact .inr ⟨rfl, hclosing⟩
  | recordFailure x =>
    cases h
    rcases call_flag hb with hold | ⟨-, hclosing⟩
    · exact .inl hold
    · obtain ⟨_, hk, -⟩ := hclosing.recovery
      cases hk
  | observeOutcome x ok =>
    cases h
    exact .inl (observe_flag hb).1
  | _ =>
    cases h
    exact .inl hb

theorem answer_backends {site : Site} {σ σ' : Shared} {o : Op} {a : Ans o}
    (h : σ.answer site o a = some σ') : σ'.world.backends = σ.world.backends := by
  cases o with
  | getHealthy | getActiveConns | allow =>
    simp only [Shared.answer] at h
    split_ifs at h
    cases h
    rfl
  | observeOutcome x ok =>
    cases h
    exact (observe_fleet σ ok).1
  | _ =>
    cases h
    rfl

def Lane.Clear (u : String) (l : Lane) (w : World) : Prop :=
  w.backends = l.backends ∧ ∀ b ∈ l.backends, b.url = u → w.healthy b = false

theorem answer_clear {σ : Shared} {o : Op} {a : Ans o}
    (ha : l.traffic.shared.answer l.site o a = some σ)
    (hleave : ∀ b, o = .recordSuccess b → b.url = u →
      ¬ Closing l.site.breaker (l.traffic.shared.cell b) (.recordSuccess l.traffic.shared.clock))
    (h : l.Clear u l.traffic.shared.world) : l.Clear u σ.world := by
  refine ⟨answer_backends ha, fun b hb hu => ?_⟩
  by_contra hset
  rcases answer_flag ha (by simpa using hset) with hold | ⟨ho, hclosing⟩
  · exact absurd hold (by simp [h.2 b hb hu])
  · exact hleave b ho hu hclosing

theorem serve_clear {i : ℕ} {lab : Label Op Ans} {σ : Shared}
    (hl : l.Leaves u (.traffic (.work i lab))) (hs : l.traffic.shared.serve l.site lab = some σ)
    (h : l.Clear u l.traffic.shared.world) :
    l.Clear u σ.world := by
  cases lab with
  | main c | spawned j c =>
    cases c with
    | answer o a =>
      apply answer_clear hs _ h
      rintro b rfl
      exact hl
    | go | timeout =>
      cases hs
      exact h
  | crash j =>
    cases hs
    exact h

theorem Lane.Drained.unlisted (h : l.Drained u n) :
    ∀ b ∈ l.traffic.shared.world.getHealthy, b.url ≠ u := by
  intro b hb hu
  obtain ⟨hmem, hset⟩ := List.mem_filter.mp hb
  simp [h.flags b hmem hu] at hset

theorem Lane.Drained.clear (h : l.Drained u n) : l.Clear u l.traffic.shared.world := ⟨rfl, h.flags⟩

theorem Lane.Drained.setShared (h : l.Drained u n) {σ : Shared} (hσ : l.Clear u σ.world) :
    (l.setShared σ).Drained u n :=
  ⟨fun b hb => hσ.2 b (hσ.1 ▸ hb), h.older, h.newer⟩

theorem Lane.Drained.write (h : l.Drained u n) {b : Backend} {v : Bool} (hv : v = true → b.url ≠ u) :
    (l.setShared (l.traffic.shared.setHealthy b v)).Drained u n := by
  refine h.setShared ⟨rfl, fun x hx hu => ?_⟩
  by_cases hxb : x = b
  · subst hxb
    cases v with
    | false => simp [Shared.setHealthy]
    | true => exact absurd hu (hv rfl)
  · simpa [Shared.setHealthy, Function.update_of_ne hxb] using h.flags x hx hu

theorem Lane.Drained.start (h : l.Drained u n) {w : World} (r : Request) {primary : Backend}
    (hw : l.Clear u w) (hp : primary ∈ w.getHealthy) :
    { l with traffic := l.traffic.start l.site w r primary }.Drained u n := by
  obtain ⟨hback, hflags⟩ := hw
  have hprimary : primary.url ≠ u := by
    intro hu
    obtain ⟨hmem, hset⟩ := List.mem_filter.mp hp
    simp [hflags primary (hback ▸ hmem) hu] at hset
  refine ⟨fun b hb => hflags b (hback ▸ hb), ?_, fun pool hpool => ?_⟩
  · simp only [Traffic.start, List.length_append]
    exact h.older.trans (Nat.le_add_right ..)
  · simp only [Traffic.start, List.drop_append_of_le_length h.older] at hpool
    rcases List.mem_append.mp hpool with hpool | hpool
    · exact h.newer pool hpool
    · rw [List.mem_singleton.mp hpool]
      exact sheltered_start r hprimary

theorem Lane.Drained.work (h : l.Drained u n) {i : ℕ} {lab : Label Op Ans}
    (hl : l.Leaves u (.traffic (.work i lab))) {t : Traffic}
    (hs : l.traffic.step l.site (.work i lab) = some t) :
    { l with traffic := t }.Drained u n := by
  cases Traffic.step_cases hs with
  | @work _ _ pool pool' σ hi hpool hσ =>
    obtain ⟨hback, hflags⟩ := serve_clear hl hσ h.clear
    refine ⟨fun b hb => hflags b (hback ▸ hb), ?_, fun q hq => ?_⟩
    · rw [List.length_set]
      exact h.older
    · rw [List.drop_set] at hq
      split_ifs at hq with hlt
      · exact h.newer q hq
      · rcases List.mem_or_eq_of_mem_set hq with hq | rfl
        · exact h.newer q hq
        · have hmem : pool ∈ l.traffic.requests.drop n := by
            refine List.mem_of_getElem? (i := i - n) ?_
            rw [List.getElem?_drop, Nat.add_sub_cancel' (not_lt.mp hlt), hi]
          exact (h.newer pool hmem).step (listed_serve h.unlisted hσ) hpool

theorem Lane.Drained.step (h : l.Drained u n) {t : LaneTurn} (hl : l.Leaves u t)
    (hs : l.step t = some l') :
    l'.Drained u n := by
  cases t with
  | traffic m =>
    obtain ⟨t, ht, rfl⟩ := Option.map_eq_some_iff.mp hs
    cases Traffic.step_cases ht with
    | wait d => exact ⟨h.flags, h.older, h.newer⟩
    | pinned hsticky hp => exact h.start _ h.clear hp
    | balanced hp =>
      have hsub :=
        l.site.deployment.stack.eligibleFrom_sublist (l.traffic.shared.reinstated l.site).getHealthy
      refine h.start _ ⟨(reinstated_fleet _).1, fun b hb hu => ?_⟩ (hsub.subset hp)
      by_contra hset
      have hset : (l.traffic.shared.reinstated l.site).healthy b = true := by simpa using hset
      rcases reinstated_flag hset with hold | hexp
      · exact absurd hold (by simp [h.flags b hb hu])
      · exact hl b hb hu hexp
    | work hi hpool hσ => exact h.work hl ht
  | call b k =>
    cases hs
    refine h.setShared ⟨rfl, fun x hx hu => ?_⟩
    by_contra hset
    have hset : (l.traffic.shared.call l.site b k).world.healthy x = true := by simpa using hset
    rcases call_flag hset with hold | ⟨rfl, hclosing⟩
    · exact absurd hold (by simp [h.flags x hx hu])
    · exact hl hu hclosing
  | probe b ok =>
    obtain ⟨k, -, rfl⟩ := Option.map_eq_some_iff.mp hs
    exact ⟨h.flags, h.older, h.newer⟩
  | mark =>
    obtain ⟨⟨σ, k⟩, hk, rfl⟩ := Option.map_eq_some_iff.mp hs
    obtain ⟨⟨b, v⟩, hp, heq⟩ := Option.map_eq_some_iff.mp hk
    cases heq
    have hclear := h.write (b := b) (v := v) fun hv => hl (b, v) hp hv
    exact ⟨hclear.flags, hclear.older, hclear.newer⟩

end Lane

section Fleet
variable {u : String} {f f₀ f' : Fleet}

theorem Fleet.findBackend_spec {i : ℕ} {b : Backend} (h : f.findBackend u = some (i, b)) :
    b.url = u ∧ ∃ l, f.lanes[i]? = some l ∧ b ∈ l.backends := by
  obtain ⟨⟨l, j⟩, hl, hb⟩ := List.exists_of_findSome?_eq_some h
  obtain ⟨b', hfind, heq⟩ := Option.map_eq_some_iff.mp hb
  cases heq
  refine ⟨by simpa using List.find?_some hfind, l, ?_, List.mem_of_find?_eq_some hfind⟩
  exact List.mem_zipIdx_iff_getElem?.mp hl

theorem Fleet.adminBackendByURL_spec (f : Fleet) (method url : String) :
    match f.adminBackendByURL method url with
    | .error resp => resp.code ≠ 200
    | .ok found => f.findBackend url = some found := by
  unfold Fleet.adminBackendByURL
  split_ifs
  · simp
  · simp
  · cases h : f.findBackend url with
    | none => simp
    | some found => rfl

/-- Every group is drained of the URL, counting requests from `f₀`. -/
structure Fleet.Drained (u : String) (f₀ f : Fleet) : Prop where
  lanes : ∀ (i : ℕ) (l₀ l : Lane), f₀.lanes[i]? = some l₀ → f.lanes[i]? = some l →
    l.Drained u l₀.traffic.requests.length

theorem Fleet.Drained.setHealthy (h : Fleet.Drained u f₀ f) {i : ℕ} {b : Backend} {v : Bool}
    (hv : v = true → b.url ≠ u) : Fleet.Drained u f₀ (f.setHealthy i b v) := by
  refine ⟨fun j l₀ l hl₀ hl => ?_⟩
  simp only [Fleet.setHealthy, List.getElem?_modify] at hl
  obtain ⟨l', hl', rfl⟩ := Option.map_eq_some_iff.mp hl
  have hold := h.lanes j l₀ l' hl₀ hl'
  split_ifs
  · exact hold.write hv
  · exact hold

theorem Fleet.Drained.admin (h : Fleet.Drained u f₀ f) {v : Bool} {method url : String}
    (hv : v = true → url ≠ u) : Fleet.Drained u f₀ (f.handleAdminFlag v method url).2 := by
  unfold Fleet.handleAdminFlag
  split
  · exact h
  · next i b hfound =>
    have hspec := f.adminBackendByURL_spec method url
    rw [hfound] at hspec
    have hurl : b.url = url := (Fleet.findBackend_spec hspec).1
    exact h.setHealthy fun hset => hurl ▸ hv hset

theorem Fleet.Drained.step (h : Fleet.Drained u f₀ f) {t : FleetTurn} (hl : f.Leaves u t)
    (hs : f.step t = some f') : Fleet.Drained u f₀ f' := by
  cases t with
  | lane i t =>
    obtain ⟨l, hli, hs⟩ := Option.bind_eq_some_iff.mp hs
    obtain ⟨l', hl', rfl⟩ := Option.map_eq_some_iff.mp hs
    refine ⟨fun j l₀ k hl₀ hk => ?_⟩
    by_cases hj : i = j
    · subst hj
      have hlt : i < f.lanes.length := (List.getElem?_eq_some_iff.mp hli).1
      rw [List.getElem?_set_self hlt] at hk
      cases hk
      exact (h.lanes i l₀ l hl₀ hli).step (hl l hli) hl'
    · rw [List.getElem?_set_ne hj] at hk
      exact h.lanes j l₀ k hl₀ hk
  | drain method url =>
    cases hs
    exact h.admin (fun hv => nomatch hv)
  | undrain method url =>
    cases hs
    exact h.admin fun _ => hl

theorem Fleet.drained_of_drain {method : String} (hsole : f.Sole u)
    (h : f.handleAdminDrain method u = ({ code := 200 }, f₀)) : Fleet.Drained u f₀ f₀ := by
  have hspec := f.adminBackendByURL_spec method u
  unfold Fleet.handleAdminDrain Fleet.handleAdminFlag at h
  split at h
  · next resp hresp =>
    rw [hresp] at hspec
    exact absurd (congrArg (fun x => x.1.code) h) hspec
  · next i b hfound =>
    rw [hfound] at hspec
    obtain rfl : f.setHealthy i b false = f₀ := congrArg Prod.snd h
    refine ⟨fun j l₀ l hl₀ hl => ?_⟩
    obtain rfl : l₀ = l := Option.some.inj (hl₀.symm.trans hl)
    refine ⟨fun x hx hu => ?_, le_rfl, by simp⟩
    simp only [Fleet.setHealthy, List.getElem?_modify] at hl
    obtain ⟨l', hl', rfl⟩ := Option.map_eq_some_iff.mp hl
    have hx' : x ∈ l'.backends := by split_ifs at hx <;> exact hx
    have hfind := hsole (l', j) (List.mem_zipIdx_iff_getElem?.mpr hl') x hx' hu
    obtain ⟨rfl, rfl⟩ : i = j ∧ b = x := by simpa using hspec.symm.trans hfind
    simp [Lane.setShared, Shared.setHealthy]

theorem Fleet.Drained.spared (h : Fleet.Drained u f₀ f) : Fleet.Spared u f₀ f := by
  intro p hp pool hpool
  obtain ⟨i, hi⟩ := List.mem_iff_getElem?.mp hp
  obtain ⟨hl₀, hl⟩ := List.getElem?_zip_eq_some.mp hi
  exact ((h.lanes i p.1 p.2 hl₀ hl).newer pool hpool).log

/-- If only one backend has the URL, no request that arrives after a successful drain touches it,
while the URL is not undrained and no turn sets its flag. -/
theorem drain_holds {method : String} (hsole : f.Sole u)
    (hdrain : f.handleAdminDrain method u = ({ code := 200 }, f₀)) {ts : List FleetTurn}
    (hm : Meets Fleet.step (Fleet.Leaves u) f₀ ts) (hrun : exec Fleet.step f₀ ts = some f') :
    Fleet.Spared u f₀ f' := by
  have hinv : Fleet.Drained u f₀ f' :=
    exec_invariant (fun _ _ _ hi hl hs => hi.step hl hs) hm hrun (Fleet.drained_of_drain hsole hdrain)
  exact hinv.spared

end Fleet

/-- The next request in a group goes to `b` and is answered at once. -/
def answeredIn (i j : ℕ) (b : Backend) : List FleetTurn :=
  let reply (o : Op) (answer : Ans o) : Move := .work j (.main (.answer o answer))
  let ms : List Move :=
    [.balanced { method := "GET" } b, reply (.note (.visit b)) (), reply (.allow b) none,
      reply (.count .retryReqs) (), reply (.recordBackendRequest b) (), reply (.proxyFor b) none,
      reply (.serveHTTP .client b) (.served none true 200 0), reply (.count (.backendLatency b)) (),
      reply (.observeLatency b) (), reply (.decrConn b) (), reply (.observeOutcome b true) (),
      reply (.recordSuccess b) ()]
  ms.map fun m => .lane i (.traffic m)

def newLane (backends : List Backend) : Lane where
  site := guarded
  checker := promptChecker
  traffic := { shared := { world := { backends := backends } } }

/-- One of two backends is drained, and the next request goes to the other. -/
theorem drain_holds_pair :
    let a : Backend := { addr := 1, url := "http://a:8000" }
    let b : Backend := { addr := 2, url := "http://b:8000" }
    let f₀ := (Fleet.handleAdminDrain { lanes := [newLane [a, b]] } "POST" "http://a:8000").2
    ∃ f' ∈ exec Fleet.step f₀ (answeredIn 0 0 b),
      (f'.lanes.map fun l => l.traffic.requests.length) = [1] ∧
      Fleet.Spared "http://a:8000" f₀ f' := by
  intro a b f₀
  have h : Fleet.Sole { lanes := [newLane [a, b]] } "http://a:8000" ∧
      (Fleet.handleAdminDrain { lanes := [newLane [a, b]] } "POST" "http://a:8000").1 =
        { code := 200 } ∧
      Meets Fleet.step (Fleet.Leaves "http://a:8000") f₀ (answeredIn 0 0 b) ∧
      ∃ f' ∈ exec Fleet.step f₀ (answeredIn 0 0 b),
        (f'.lanes.map fun l => l.traffic.requests.length) = [1] := by
    decide +kernel
  obtain ⟨hsole, hcode, hm, f', hf', hlen⟩ := h
  exact ⟨f', hf', hlen, drain_holds hsole (Prod.ext hcode rfl) hm hf'⟩

/-- A drained backend serves a new request once a probe has found it healthy, and one with the
same URL in another group serves all along. -/
theorem drained_url_served :
    let a : Backend := { addr := 1, url := "http://a:8000" }
    let a' : Backend := { addr := 2, url := "http://a:8000" }
    let drained (f : Fleet) := f.handleAdminDrain "POST" "http://a:8000"
    let probed : List FleetTurn := [.lane 0 (.probe a true), .lane 0 .mark]
    ((drained { lanes := [newLane [a]] }).1 = { code := 200 } ∧
      ∃ f' ∈ exec Fleet.step (drained { lanes := [newLane [a]] }).2 (probed ++ answeredIn 0 0 a),
        ¬ Fleet.Spared "http://a:8000" (drained { lanes := [newLane [a]] }).2 f') ∧
    ((drained { lanes := [newLane [a], newLane [a']] }).1 = { code := 200 } ∧
      ∃ f' ∈ exec Fleet.step (drained { lanes := [newLane [a], newLane [a']] }).2 (answeredIn 1 0 a'),
        ¬ Fleet.Spared "http://a:8000" (drained { lanes := [newLane [a], newLane [a']] }).2 f') := by
  decide +kernel

end ReverseProxyLb.Server
