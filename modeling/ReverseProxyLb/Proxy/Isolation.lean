import ReverseProxyLb.Proxy.Routing
import ReverseProxyLb.Proxy.Containment

/-! The log of a request splits into the events by which its balancer is fixed and the rest. For
`Inside`, take as `S` the backends returned so far: then `Listed S` is true by definition. -/
namespace ReverseProxyLb.Proxy
open Lib Pool

def Fixing : FrontEvent → Prop
  | .env .loadCanaryWeight _ | .env (.intn _) _ | .env .incrCanaryRequest _ | .env .route _ => True
  | _ => False

def routed : FrontEvent → Option Group
  | .env .route b => (show Option Group from b)
  | _ => none

def isCanary : FrontEvent → Bool
  | .env .incrCanaryRequest _ => true
  | _ => false

def Front.fixed (F : Front) (evs : List FrontEvent) : Group :=
  if evs.any isCanary then F.canary.getD F.balancer else (evs.findSome? routed).getD F.balancer

/-- No balancer but `g` is asked or told anything, and none is fixed. -/
def OnGroup (g : Group) : FrontEvent → Prop
  | .env (.next g') _ | .env (.nextForKey g' _) _ | .env (.getHealthy g') _
  | .env (.observeOutcome g' _ _) _ | .env (.observeLatency g' _) _ => g' = g
  | .env (.plain .getHealthy) _ | .env (.plain (.observeOutcome _ _)) _ | .env
    (.plain (.observeLatency _)) _ => False
  | .env .loadCanaryWeight _ | .env (.intn _) _ | .env .incrCanaryRequest _ | .env .route _ => False
  | _ => True

/-- The backends that `g` returned. -/
def returnedBy (g : Group) : FrontEvent → List Backend
  | .env (.next g') b | .env (.nextForKey g' _) b =>
    match (show Except String (Option Backend) from b) with
    | .ok b => if g' = g then b.toList else []
    | .error _ => []
  | .env (.getHealthy g') healthy => if g' = g then (show List Backend from healthy) else []
  | _ => []

def touches : FrontEvent → List Backend
  | .env (.observeOutcome _ b _) _ | .env (.observeLatency _ b) _ | .env (.plain (.allow b)) _
  | .env (.plain (.recordSuccess b)) _ | .env (.plain (.recordFailure b)) _ | .env
    (.plain (.incrConn b)) _
  | .env (.plain (.decrConn b)) _ | .env (.plain (.recordBackendRequest b)) _ | .env
    (.plain (.proxyFor b)) _
  | .env (.plain (.serveHTTP _ b)) _ | .fork (_, b) => [b]
  | _ => []

/-- Every event keeps to `g`, and to the backends that `g` returned before it. -/
def StaysIn (g : Group) (log : List FrontEntry) : Prop :=
  ∀ before x after, log = before ++ x :: after →
    OnGroup g x.2 ∧ ∀ b ∈ touches x.2, ∃ y ∈ before, b ∈ returnedBy g y.2

section Pin
variable {F : Front} {r : Incoming}

def Pinned (F : Front) : Outcome Incoming → List FrontEvent → Prop
  | .returned r, evs => r.balancerCtx = some (F.fixed evs)
  | .panicked, _ => False

theorem fixing_performs (e : FrontEvent) (h : Fixing e) : e.Performs fun _ => True := by
  cases e with
  | env => trivial
  | fork | send | recv | timeout => exact h

theorem fixing_append {evs : List FrontEvent} {e : FrontEvent} (h : (history Fixing).inv evs)
    (he : Fixing e) :
    (history Fixing).inv (evs ++ [e]) :=
  List.forall_mem_append.mpr ⟨h, by simpa using he⟩

structure Undecided (evs : List FrontEvent) : Prop where
  fixing : (history Fixing).inv evs
  canary : evs.any isCanary = false
  router : evs.findSome? routed = none

theorem Undecided.append {evs : List FrontEvent} {e : FrontEvent} (h : Undecided evs) (he : Fixing e)
    (hc : isCanary e = false) (hr : routed e = none) : Undecided (evs ++ [e]) where
  fixing := fixing_append h.fixing he
  canary := by simp [h.canary, hc]
  router := by simp [h.router, hr]

theorem safe_canaryFor {Q : Outcome (Option Group) → List FrontEvent → Prop}
    (hq : ∀ canary evs, Undecided evs → (∀ c ∈ canary, F.canary = some c) → Q (.returned canary) evs) :
    Safe (fun _ => True) (history Fixing) Q F.canaryFor [] := by
  have hnone : ∀ evs, Undecided evs → Q (.returned none) evs := fun evs h => hq none evs h (by simp)
  have h₀ : Undecided [] := ⟨by simp, rfl, rfl⟩
  unfold Front.canaryFor
  split
  · exact ⟨h₀.fixing, hnone _ h₀⟩
  · next canary hcanary =>
    refine safe_perform_bind.mpr ⟨h₀.fixing, fun weight _ => ?_⟩
    have h₁ := h₀.append (e := .env .loadCanaryWeight weight) trivial rfl rfl
    split_ifs with hw
    · refine safe_perform_bind.mpr ⟨h₁.fixing, fun n _ => ?_⟩
      have h₂ := h₁.append (e := .env (.intn 100) n) trivial rfl rfl
      refine safe_perform_bind.mpr ⟨h₂.fixing, fun weight' _ => ?_⟩
      have h₃ := h₂.append (e := .env .loadCanaryWeight weight') trivial rfl rfl
      change Safe _ _ _ (if decide (n < weight') = true then _ else _) _
      split_ifs
      · exact ⟨h₃.fixing, hq _ _ h₃ fun c hc => Option.mem_some_iff.mp hc ▸ hcanary⟩
      · exact ⟨h₃.fixing, hnone _ h₃⟩
    · exact ⟨h₁.fixing, hnone _ h₁⟩

theorem safe_route {evs : List FrontEvent} (h : Undecided evs)
    {Q : Outcome Group → List FrontEvent → Prop}
    (hq : ∀ evs, (history Fixing).inv evs → Q (.returned (F.fixed evs)) evs) :
    Safe (fun _ => True) (history Fixing) Q F.route evs := by
  unfold Front.route
  split
  · refine safe_perform_bind.mpr ⟨h.fixing, fun b _ => ?_⟩
    have hinv := fixing_append (e := .env .route b) h.fixing trivial
    have hfixed : F.fixed (evs ++ [.env .route b]) = b.getD F.balancer := by
      simp [Front.fixed, h.canary, h.router, isCanary, routed]
    have hb := hq _ hinv
    rw [hfixed] at hb
    cases b with
    | none => exact ⟨hinv, hb⟩
    | some b => exact ⟨hinv, hb⟩
  · have hb := hq evs h.fixing
    have hfixed : F.fixed evs = F.balancer := by simp [Front.fixed, h.canary, h.router]
    rw [hfixed] at hb
    exact ⟨h.fixing, hb⟩

theorem pinned_pin (F : Front) (r : Incoming) :
    Safe (fun _ => True) (history Fixing) (Pinned F) (F.pin r) [] := by
  refine safe_bind.mpr (safe_canaryFor fun canary evs h hcanary => ?_)
  cases canary with
  | none =>
    refine safe_bind.mpr (safe_route h fun evs hinv => ⟨hinv, rfl⟩)
  | some c =>
    refine ⟨h.fixing, fun _ _ => ⟨fixing_append h.fixing trivial, ?_⟩⟩
    simp [Pinned, Front.fixed, isCanary, hcanary c rfl]

end Pin

section Group
variable {F : Front} {r : Incoming} {g : Group} {S : Backend → Prop} {α : Type}

/-- What `g` returns is in `S`. -/
def Returns (g : Group) (S : Backend → Prop) (e : FrontEvent) : Prop := ∀ b ∈ returnedBy g e, S b

/-- The event keeps to `g` and to the backends in `S`, and goroutines are launched
with `g` on their request's context. -/
def KeepsTo (g : Group) (S : Backend → Prop) (e : FrontEvent) : Prop :=
  OnGroup g e ∧ (∀ b ∈ touches e, S b) ∧ ∀ t ∈ e.forked, t.1.balancerCtx = some g

theorem keeps_balancerFor (hr : r.balancerCtx = some g) : F.balancerFor r = pure g := by
  simp [Front.balancerFor, hr]

theorem KeepsTo.quiet {e : FrontEvent} (he : OnGroup g e) (ht : touches e = []) (hf : e.forked = []) :
    KeepsTo g S e := ⟨he, by simp [ht], by simp [hf]⟩

theorem KeepsTo.on {o : FrontOp} {a : FrontAns o} {b : Backend} (he : OnGroup g (.env o a))
    (ht : touches (.env o a) = [b]) (hb : S b) : KeepsTo g S (.env o a) :=
  ⟨he, by simpa [ht] using hb, by simp [Event.forked]⟩

theorem keeps_plain {o : Op} {a : Ans o} (h : Inside S (.env o a)) {Q : Ans o → Prop}
    (hg : ∀ a, OnGroup g (.env (.plain o) a)) (hq : ∀ a, Q a) :
    Confined (Returns g S) (KeepsTo g S) Q (.perform (FrontOp.plain o) : Serve (Ans o)) := by
  refine confined_perform
    (o := FrontOp.plain o) (fun a' => ⟨hg a', ?_, by simp [Event.forked]⟩) fun a' _ => hq a'
  cases o <;> first | exact List.forall_mem_singleton.mpr h | exact List.forall_mem_nil _

theorem keeps_carryOut (hr : r.balancerCtx = some g) (o : Op) (a : Ans o) (h : Inside S (.env o a)) :
    Confined (Returns g S) (KeepsTo g S) (fun a => Listed S (.env o a)) (F.carryOut r o) := by
  cases o with
  | getHealthy =>
    simp only [Front.carryOut, keeps_balancerFor hr]
    refine confined_perform
      (o := FrontOp.getHealthy g) (fun _ => .quiet rfl rfl rfl) fun healthy hret => ?_
    change ∀ b ∈ healthy, S b
    simpa [Returns, returnedBy] using hret
  | observeOutcome b ok =>
    simp only [Front.carryOut, keeps_balancerFor hr]
    change Confined _ _ _ (if g.observesOutcome = true then _ else _)
    split
    · exact confined_perform (o := FrontOp.observeOutcome g b ok) (fun _ => .on rfl rfl h) fun _ _ =>
        trivial
    · trivial
  | observeLatency b =>
    simp only [Front.carryOut, keeps_balancerFor hr]
    change Confined _ _ _ (if g.observesLatency = true then _ else _)
    split
    · exact confined_perform (o := FrontOp.observeLatency g b) (fun _ => .on rfl rfl h) fun _ _ =>
        trivial
    · trivial
  | getActiveConns | incrConn | decrConn | allow | recordSuccess | recordFailure | recordBackendRequest | proxyFor
  | serveHTTP | loadRetryCount | loadRetryReqs | int63n | sleep | count | httpError | writeResponse | note =>
    exact keeps_plain h (fun _ => trivial) fun _ => trivial

theorem keeps_onBehalf (hr : r.balancerCtx = some g) {prog : Act α} {Q : α → Prop}
    (h : Confined (Listed S) (Inside S) Q prog) :
    Confined (Returns g S) (KeepsTo g S) Q (F.onBehalf r prog) := by
  refine h.interpret (fun o => ?_) (fun o a _ he => keeps_carryOut hr o a he) (fun b hb => ?_)
    (fun _ => .quiet trivial rfl rfl) (fun _ => .quiet trivial rfl rfl) (.quiet trivial rfl rfl)
  · cases o with
    | getHealthy => exact ⟨[], by simp [Listed]⟩
    | _ => exact ⟨(nonempty_ans _).some, trivial⟩
  · exact ⟨trivial, List.forall_mem_singleton.mpr hb, List.forall_mem_singleton.mpr hr⟩

theorem keeps_attempt (t : Incoming × Backend) (h : KeepsTo g S (.fork t)) :
    Confined (Returns g S) (KeepsTo g S) (fun _ => True) (F.attempt t) := by
  obtain ⟨-, htouch, hforked⟩ := h
  exact keeps_onBehalf (hforked t (List.mem_singleton_self t))
    (inside_hedgeAttempt (htouch t.2 (List.mem_singleton_self t.2)))

/-- A backend that selection returns is in `S`. -/
def Selected (S : Backend → Prop) : Except String (Option Backend) → Prop
  | .ok b => ∀ x ∈ b, S x
  | .error _ => True

theorem keeps_nextFrom (key : String) :
    Confined (Returns g S) (KeepsTo g S) (Selected S) (Front.nextFrom g key) := by
  have hsel : ∀ {b : Except String (Option Backend)}, Returns g S (.env (.next g) b) →
      Selected S b := by
    intro b h
    cases b with
    | error => trivial
    | ok b => simpa [Returns, returnedBy, Selected] using h
  unfold Front.nextFrom
  split
  · exact confined_perform (o := FrontOp.nextForKey g key) (fun _ => .quiet rfl rfl rfl) fun b h =>
      hsel h
  · exact confined_perform (o := FrontOp.next g) (fun _ => .quiet rfl rfl rfl) fun b h => hsel h

theorem keeps_backendForToken (hr : r.balancerCtx = some g) (token : String) :
    Confined (Returns g S) (KeepsTo g S) (fun b => ∀ x ∈ b, S x) (F.backendForToken r token) := by
  simp only [Front.backendForToken, keeps_balancerFor hr]
  have hlist : Confined (Returns g S) (KeepsTo g S) (fun healthy => ∀ b ∈ healthy, S b)
      (.perform (FrontOp.getHealthy g) : Serve (List Backend)) :=
    confined_perform (o := FrontOp.getHealthy g) (fun _ => .quiet rfl rfl rfl)
      fun healthy h => by simpa [Returns, returnedBy] using h
  refine hlist.bind fun healthy h x hx => ?_
  exact h x (List.mem_of_find?_eq_some hx)

theorem keeps_selectBackend (hr : r.balancerCtx = some g) :
    Confined (Returns g S) (KeepsTo g S) (Selected S) (F.selectBackend r) := by
  simp only [Front.selectBackend, keeps_balancerFor hr]
  change Confined _ _ _ (if F.sticky.enabled = true then _ else _)
  split
  · have hpin : Confined (Returns g S) (KeepsTo g S) (fun b => ∀ x ∈ b, S x)
        (if F.stickyToken r ≠ "" then F.backendForToken r (F.stickyToken r) else pure none) := by
      split
      · exact keeps_backendForToken hr _
      · exact fun x hx => nomatch hx
    refine hpin.bind fun be hbe => ?_
    cases be with
    | none => exact keeps_nextFrom _
    | some be =>
      have hin : Confined (Returns g S) (KeepsTo g S) (fun _ => True)
          (.perform (FrontOp.plain (.incrConn be)) : Serve Unit) :=
        keeps_plain (o := Op.incrConn be) (a := ()) (hbe be rfl) (fun _ => trivial) fun _ => trivial
      exact hin.bind fun _ _ => hbe
  · exact keeps_nextFrom _

theorem keeps_proxyPrimary (hr : r.balancerCtx = some g) (group : List Backend)
    (backend : Option Backend) (hb : ∀ x ∈ backend, S x) :
    Confined (Returns g S) (KeepsTo g S) (fun _ => True) (F.proxyPrimary group r backend) := by
  cases backend with
  | some primary => exact keeps_onBehalf hr (inside_proxyRequest group r.request (hb primary rfl))
  | none =>
    dsimp only [Front.proxyPrimary]
    split
    · trivial
    · exact keeps_onBehalf hr (inside_giveUp r.request none false)

theorem keeps_serve (hr : r.balancerCtx = some g) (group : List Backend) :
    Confined (Returns g S) (KeepsTo g S) (fun _ => True) (F.serve group r) := by
  refine (keeps_selectBackend hr).bind fun selected hsel => ?_
  cases selected with
  | error =>
    exact fun _ _ => ⟨.quiet trivial rfl rfl, fun _ _ => ⟨.quiet trivial rfl rfl, trivial⟩⟩
  | ok backend =>
    have hproxy := keeps_proxyPrimary (F := F) hr group backend hsel
    change Confined _ _ _ (if F.sticky.enabled = true then _ else _)
    split
    · have hcookie : Confined
          (Returns g S) (KeepsTo g S) (fun _ => True) (F.setStickyCookie backend) := by
        unfold Front.setStickyCookie
        split
        · trivial
        · cases backend with
          | none => trivial
          | some b =>
            dsimp only [Front.setCookie]
            split
            · exact fun _ _ => ⟨.quiet trivial rfl rfl, trivial⟩
            · trivial
      exact hcookie.bind fun _ _ => hproxy
    · exact hproxy

end Group

section Run
variable {F : Front} {group : List Backend} {r : Incoming}

theorem returnedBy_of_touches {g : Group} {e : FrontEvent} {b : Backend} (h : b ∈ touches e) :
    returnedBy g e = [] := by
  cases e with
  | env o a => cases o <;> first | rfl | cases h
  | fork | send | recv | timeout => rfl

theorem serve_staysIn {g : Group} (hr : r.balancerCtx = some g) {fixing rest : List FrontEntry}
    {s : Pool FrontOp FrontAns (Incoming × Backend) HedgeResult Unit}
    {ls : List (Label FrontOp FrontAns)}
    (hrun : exec (step F.attempt) { main := F.serve group r, log := fixing } ls = some s)
    (hlog : s.log = fixing ++ rest) : StaysIn g rest := by
  rintro before x after rfl
  -- the moment at which `x` has just happened
  have hpre : fixing ++ (before ++ [x]) <+: s.log := ⟨after, by simp [hlog]⟩
  obtain ⟨ls', s', hreach, hs'⟩ := log_reached hrun hpre
  let S := fun b => ∃ y ∈ before ++ [x], b ∈ returnedBy g y.2
  have hconf : AllConfined (Returns g S) (KeepsTo g S)
      ({ main := F.serve group r, log := fixing } : Pool FrontOp FrontAns _ _ _) :=
    ⟨keeps_serve hr group, by simp⟩
  have hkeeps := confined_log keeps_attempt hconf hreach hs' (fun y hy b hb => ⟨y, hy, hb⟩) x (by simp)
  refine ⟨hkeeps.1, fun b hb => ?_⟩
  obtain ⟨y, hy, hby⟩ := hkeeps.2.1 b hb
  rcases List.mem_append.mp hy with hy | hy
  · exact ⟨y, hy, hby⟩
  · rw [List.mem_singleton.mp hy, returnedBy_of_touches hb] at hby
    cases hby

/-- One balancer is fixed first, and from then on every backend is one that it has returned and
every observation is reported to it. -/
theorem request_stays_in_group {s : Pool FrontOp FrontAns (Incoming × Backend) HedgeResult Unit}
    {ls : List (Label FrontOp FrontAns)}
    (hrun : exec (step F.attempt) { main := F.serveHTTP group r } ls = some s) :
    ∃ fixing rest, s.log = fixing ++ rest ∧ (∀ x ∈ fixing, Fixing x.2) ∧
      StaysIn (F.fixed (fixing.map Prod.snd)) rest := by
  rcases exec_bind fixing_performs
    (pinned_pin F r) hrun with hfix | ⟨r', fixing, ls', hpin, hfix, hrest⟩
  · refine ⟨s.log, [], (List.append_nil _).symm, hfix, fun before x after h => ?_⟩
    simp at h
  · obtain ⟨rest, hlog⟩ := log_run hrest
    exact ⟨fixing, rest, hlog, hfix, serve_staysIn hpin hrest hlog⟩

end Run

/-- The route's balancer returns `a`, which refuses the connection, and then lists
`b`, which answers. -/
def reroutedRun (g : Group) (a b : Backend) : List (Label FrontOp FrontAns) :=
  [.answer .route (some g), .answer (.next g) (.ok (some a)), .answer (.plain (.note (.visit a))) (),
    .answer (.plain (.count .retryReqs)) (), .answer (.plain (.recordBackendRequest a)) (),
    .answer (.plain (.proxyFor a)) none,
    .answer (.plain (.serveHTTP .client a)) (.served (some { dial := true }) false 0 0),
    .answer (.plain (.count (.backendLatency a))) (), .answer (.plain (.count (.backendError a))) (),
    .answer (.plain (.decrConn a)) (), .answer (.observeOutcome g a false) (),
      .answer (.getHealthy g) [a, b],
    .answer (.plain (.incrConn b)) (), .answer (.plain (.note (.visit b))) (),
    .answer (.plain (.count .retryReqs)) (), .answer (.plain (.recordBackendRequest b)) (),
    .answer (.plain (.proxyFor b)) none,
      .answer (.plain (.serveHTTP .client b)) (.served none true 200 0),
    .answer (.plain (.count (.backendLatency b))) (), .answer (.observeLatency g b) (),
    .answer (.plain (.decrConn b)) (), .answer (.observeOutcome g b true) ()].map .main

theorem request_stays_in_group_rerouted :
    let g : Group := { id := 1, observesLatency := true, observesOutcome := true }
    let F : Front := { balancer := { id := 0 }, router := true }
    let a : Backend := { addr := 1 }
    let b : Backend := { addr := 2 }
    ∃ s ∈ exec (step F.attempt)
        { main := F.serveHTTP [a, b] { request := { method := "GET" } } } (reroutedRun g a b),
      s.main.value? = some () ∧ ∃ fixing rest, s.log = fixing ++ rest ∧ (∀ x ∈ fixing, Fixing x.2) ∧
        StaysIn (F.fixed (fixing.map Prod.snd)) rest := by
  intro g F a b
  have h :
      ∃ s ∈ exec (step F.attempt) { main := F.serveHTTP [a, b] { request := { method := "GET" } } }
      (reroutedRun g a b), s.main.value? = some () := by decide +kernel
  obtain ⟨s, hs, hret⟩ := h
  exact ⟨s, hs, hret, request_stays_in_group hs⟩

end ReverseProxyLb.Proxy
