import ReverseProxyLb.Proxy.Assignment
import ReverseProxyLb.Proxy.Front
import ReverseProxyLb.Proxy.Isolation

/-! The affinity cookie is set before any backend is tried. It names the assigned backend,
whichever backend then answers. -/
namespace ReverseProxyLb.Proxy
open Lib Pool

def Reply.delivered : Reply → Bool
  | .served none _ _ _ _ => true
  | .served (some _) wrote _ _ _ => wrote
  | .panicked wrote => wrote

def reservedFor : FrontEvent → Option Backend
  | .env (.next _) b | .env (.nextForKey _ _) b =>
    match (show Except String (Option Backend) from b) with
    | .ok b => b
    | .error _ => none
  | .env (.plain (.incrConn b)) _ => some b
  | _ => none

def cookieSet : FrontEvent → Option Cookie
  | .env (.setCookie c) _ => some c
  | _ => none

def winnerOf : FrontEvent → Option Backend
  | .recv hr => if isHedgeWin hr then some hr.backend else none
  | _ => none

def answeredBy (before : List FrontEvent) : FrontEvent → Option Backend
  | .env (.plain (.serveHTTP .client b)) reply => if Reply.delivered reply then some b else none
  | .env (.plain (.writeResponse _ _)) _ => before.findSome? winnerOf
  | _ => none

def mayAnswer : FrontEvent → Bool
  | .env (.plain (.serveHTTP .client _)) _ | .env (.plain (.writeResponse _ _)) _ => true
  | _ => false

theorem mayAnswer_of_answeredBy {before : List FrontEvent} {e : FrontEvent} {b : Backend}
    (h : answeredBy before e = some b) : mayAnswer e = true := by
  cases e with
  | env o a =>
    cases o with
    | plain o =>
      cases o with
      | serveHTTP w x =>
        cases w with
        | client => rfl
        | recorder => cases h
      | writeResponse => rfl
      | _ => cases h
    | _ => cases h
  | _ => cases h

namespace Front
variable (F : Front)

/-- A backend is assigned, and the only cookie names it. With a name that is no token there is none. -/
def Pledged (evs : List FrontEvent) : Prop :=
  ∃ a c, evs.findSome? reservedFor = some a ∧
    evs.filterMap cookieSet = (if Text.isToken F.sticky.cookie then [c] else []) ∧
    c.name = F.sticky.cookie ∧ c.value = backendToken a

def Affine (evs : List FrontEvent) : Prop :=
  ∀ before e after, evs = before ++ e :: after → mayAnswer e = true →
    F.Pledged before ∧ after.filterMap cookieSet = []

def recorded : Discipline FrontOp FrontAns (Incoming × Backend) HedgeResult (List FrontEvent) where
  upd evs e := evs ++ [e]
  inv := F.Affine

end Front

section Pledge
variable {F : Front} {r : Incoming} {g : Group} {evs : List FrontEvent} {α : Type}

def Reticent (e : FrontEvent) : Prop := cookieSet e = none ∧ mayAnswer e = false

theorem affine_of_silent (h : ∀ e ∈ evs, mayAnswer e = false) : F.Affine evs := by
  rintro before e after rfl he
  have hq := h e (by simp)
  rw [he] at hq
  cases hq

theorem affine_of_reticent (h : ∀ e ∈ evs, Reticent e) : F.Affine evs :=
  affine_of_silent fun e he => (h e he).2

theorem reticent_concat (h : ∀ e ∈ evs, Reticent e) {e : FrontEvent} (he : Reticent e) :
    ∀ x ∈ evs ++ [e], Reticent x :=
  List.forall_mem_append.mpr ⟨h, List.forall_mem_singleton.mpr he⟩

theorem Front.Pledged.concat (h : F.Pledged evs) {e : FrontEvent} (he : cookieSet e = none) :
    F.Pledged (evs ++ [e]) := by
  obtain ⟨a, c, ha, hc, hname, hvalue⟩ := h
  refine ⟨a, c, ?_, ?_, hname, hvalue⟩
  · rw [List.findSome?_append, ha]
    rfl
  · rw [List.filterMap_append, hc]
    simp [he]

theorem concat_split {e x : FrontEvent} {before after : List FrontEvent}
    (h : evs ++ [e] = before ++ x :: after) :
    (evs = before ∧ after = []) ∨ ∃ rest, evs = before ++ x :: rest ∧ after = rest ++ [e] := by
  obtain rfl | ⟨rest, y, rfl⟩ := after.eq_nil_or_concat'
  · exact .inl ⟨(List.append_inj' h rfl).1, rfl⟩
  · rw [← List.cons_append, ← List.append_assoc] at h
    obtain ⟨hevs, hy⟩ := List.append_inj' h rfl
    cases hy
    exact .inr ⟨rest, hevs, rfl⟩

theorem affine_concat (h : F.Affine evs) (hp : F.Pledged evs) {e : FrontEvent}
    (he : cookieSet e = none) :
    F.Affine (evs ++ [e]) := by
  intro before x after heq hx
  obtain ⟨rfl, rfl⟩ | ⟨rest, hevs, rfl⟩ := concat_split heq
  · exact ⟨hp, rfl⟩
  · obtain ⟨hpledged, hnone⟩ := h before x rest hevs hx
    refine ⟨hpledged, ?_⟩
    rw [List.filterMap_append, hnone]
    simp [he]

theorem affine_confined {prog : Serve α}
    (hprog : Confined (fun _ => True) (fun e => cookieSet e = none) (fun _ => True) prog)
    (h : F.Affine evs) (hp : F.Pledged evs) :
    Ends F.recorded (fun _ _ => True) prog evs := by
  apply (hprog.ends_keeps (I := fun evs => F.Affine evs ∧ F.Pledged evs) _
    (fun _ h => h.1) ⟨h, hp⟩).mono
  · intro _ _ _ _
    trivial
  · intro evs e hi he
    exact ⟨affine_concat hi.1 hi.2 he, hi.2.concat he⟩

theorem uncookied_carryOut (o : Op) : Within (fun e => cookieSet e = none) (F.carryOut r o) :=
  within_carryOut (fun _ => rfl) (fun _ _ => rfl) (fun _ _ _ _ => rfl) (fun _ _ _ => rfl) o fun _ =>
    rfl

theorem uncookied_onBehalf (prog : Act α) :
    Confined (fun _ => True) (fun e => cookieSet e = none) (fun _ => True) (F.onBehalf r prog) := by
  have hprog : Confined (fun _ => True) (fun _ => True) (fun _ => True) prog := confined_trivial prog
  apply hprog.interpret
  · exact fun o => ⟨(nonempty_ans o).some, trivial⟩
  · exact fun o _ _ _ => (uncookied_carryOut o).confined fun _ => id
  · exact fun _ _ => rfl
  · exact fun _ => rfl
  · exact fun _ => rfl
  · rfl

theorem uncookied_proxyPrimary (group : List Backend) (r : Incoming) (backend : Option Backend) :
    Confined (fun _ => True) (fun e => cookieSet e = none) (fun _ => True)
      (F.proxyPrimary group r backend) := by
  cases backend with
  | some primary => exact uncookied_onBehalf _
  | none =>
    dsimp only [Front.proxyPrimary]
    split
    · trivial
    · exact uncookied_onBehalf _

def Idle (e : FrontEvent) : Prop := Reticent e ∧ reservedFor e = none

theorem idle_pin (F : Front) (r : Incoming) :
    Confined (fun _ => True) Idle (fun r' => ∃ g, r'.balancerCtx = some g) (F.pin r) := by
  have hidle : ∀ {o : FrontOp} {a : FrontAns o}, Fixing (.env o a) → Idle (.env o a) := by
    intro o a h
    cases o with
    | loadCanaryWeight | intn | incrCanaryRequest | route => exact ⟨⟨rfl, rfl⟩, rfl⟩
    | _ => exact h.elim
  have hcanary : Within Idle F.canaryFor :=
    within_canaryFor (fun _ => hidle trivial) fun _ => hidle trivial
  have hroute : Within Idle F.route := within_route fun _ => hidle trivial
  apply (hcanary.confined fun _ => id).bind
  intro canary _
  cases canary with
  | some canary => exact fun _ _ => ⟨hidle trivial, canary, rfl⟩
  | none =>
    apply (hroute.confined fun _ => id).bind
    exact fun b _ => ⟨b, rfl⟩

def Chosen (selected : Except String (Option Backend)) (evs : List FrontEvent) : Prop :=
  (∀ e ∈ evs, Reticent e) ∧ ∀ a, selected = .ok (some a) → evs.findSome? reservedFor = some a

theorem chosen_concat (h : ∀ e ∈ evs, Idle e) {e : FrontEvent} (he : Reticent e)
    {selected : Except String (Option Backend)}
    (hs : ∀ a, selected = .ok (some a) → reservedFor e = some a) :
    Chosen selected (evs ++ [e]) := by
  refine ⟨reticent_concat (fun x hx => (h x hx).1) he, fun a ha => ?_⟩
  have hnone : evs.findSome? reservedFor = none :=
    List.findSome?_eq_none_iff.mpr fun x hx => (h x hx).2
  rw [List.findSome?_append, hnone]
  simp [hs a ha]

theorem affine_of_idle (h : ∀ e ∈ evs, Idle e) : F.Affine evs :=
  affine_of_reticent fun x hx => (h x hx).1

theorem affine_nextFrom (g : Group) (key : String) (h : ∀ e ∈ evs, Idle e) :
    Ends F.recorded Chosen (Front.nextFrom g key) evs := by
  unfold Front.nextFrom
  split
  · refine ⟨affine_of_idle h, fun b => ?_⟩
    have hchosen : Chosen b (evs ++ [.env (.nextForKey g key) b]) := by
      apply chosen_concat h ⟨rfl, rfl⟩
      rintro a rfl
      rfl
    exact ⟨affine_of_reticent hchosen.1, hchosen⟩
  · refine ⟨affine_of_idle h, fun b => ?_⟩
    have hchosen : Chosen b (evs ++ [.env (.next g) b]) := by
      apply chosen_concat h ⟨rfl, rfl⟩
      rintro a rfl
      rfl
    exact ⟨affine_of_reticent hchosen.1, hchosen⟩

theorem affine_selectBackend (hr : r.balancerCtx = some g) (h : ∀ e ∈ evs, Idle e) :
    Ends F.recorded Chosen (F.selectBackend r) evs := by
  unfold Front.selectBackend
  rw [keeps_balancerFor hr]
  change Ends _ _ (if F.sticky.enabled = true then _ else _) evs
  split
  · by_cases htoken : F.stickyToken r = ""
    · simp only [htoken, ne_eq, not_true_eq_false, if_false]
      exact affine_nextFrom g _ h
    · simp only [htoken, ne_eq, not_false_eq_true, if_true]
      unfold Front.backendForToken
      rw [keeps_balancerFor hr]
      refine ⟨affine_of_idle h, fun healthy => ?_⟩
      have hidle : ∀ e ∈ evs ++ [.env (.getHealthy g) healthy], Idle e :=
        List.forall_mem_append.mpr ⟨h, List.forall_mem_singleton.mpr ⟨⟨rfl, rfl⟩, rfl⟩⟩
      dsimp only [Prog.bind]
      cases List.find? (fun b => decide (backendToken b = F.stickyToken r)) healthy with
      | none => exact affine_nextFrom g _ hidle
      | some be =>
        refine ⟨affine_of_idle hidle, fun _ => ?_⟩
        have hchosen : Chosen (.ok (some be)) (evs ++ [.env (.getHealthy g) healthy] ++
            [.env (.plain (.incrConn be)) ()]) := by
          apply chosen_concat hidle ⟨rfl, rfl⟩
          rintro a ⟨⟩
          rfl
        exact ⟨affine_of_reticent hchosen.1, hchosen⟩
  · exact affine_nextFrom g _ h

theorem Chosen.affine_setCookie {selected : Except String (Option Backend)} (h : Chosen selected evs)
    (c : Cookie) :
    F.Affine (evs ++ [.env (.setCookie c) ()]) :=
  affine_of_silent (List.forall_mem_append.mpr
    ⟨fun e he => (h.1 e he).2, List.forall_mem_singleton.mpr rfl⟩)

theorem Chosen.uncookied {selected : Except String (Option Backend)} (h : Chosen selected evs) :
    evs.filterMap cookieSet = [] :=
  List.filterMap_eq_nil_iff.mpr fun e he => (h.1 e he).1

theorem Chosen.pledged {a : Backend} (h : Chosen (.ok (some a)) evs) {c : Cookie}
    (hname : c.name = F.sticky.cookie) (hvalue : c.value = backendToken a)
    (htoken : Text.isToken F.sticky.cookie = true) : F.Pledged (evs ++ [.env (.setCookie c) ()]) := by
  refine ⟨a, c, ?_, ?_, hname, hvalue⟩
  · rw [List.findSome?_append, h.2 a rfl]
    rfl
  · rw [List.filterMap_append, h.uncookied, if_pos htoken]
    rfl

theorem Chosen.pledged_of_dropped {a : Backend} (h : Chosen (.ok (some a)) evs)
    (htoken : Text.isToken F.sticky.cookie = false) : F.Pledged evs :=
  ⟨a, { name := F.sticky.cookie, value := backendToken a },
    h.2 a rfl, by rw [h.uncookied, htoken]; rfl, rfl, rfl⟩

theorem affine_serveHTTP (hs : F.sticky.enabled = true) (hc : F.sticky.cookie ≠ "")
    (group : List Backend) (r : Incoming) :
    Ends F.recorded (fun _ _ => True) (F.serveHTTP group r) [] := by
  apply ends_bind.mpr
  apply ((idle_pin F r).ends_keeps (I := fun evs => ∀ e ∈ evs, Idle e) _
    (fun _ => affine_of_idle) (by simp)).mono
  · rintro r' evs - ⟨⟨g, hg⟩, hidle⟩
    apply ends_bind.mpr
    apply (affine_selectBackend hg hidle).mono
    intro selected evs haffine hchosen
    cases selected with
    | error msg =>
      have hcount := reticent_concat hchosen.1 (e := .env (.plain (.count .incrError)) ()) ⟨rfl, rfl⟩
      have herror := reticent_concat hcount
        (e := .env (.plain (.httpError serviceUnavailable "No available backends")) ()) ⟨rfl, rfl⟩
      exact ⟨haffine, fun _ =>
        ⟨affine_of_reticent hcount, fun _ => ⟨affine_of_reticent herror, trivial⟩⟩⟩
    | ok backend =>
      simp only [hs, if_true]
      unfold Front.setStickyCookie
      rw [if_neg hc]
      cases backend with
      | none => exact haffine
      | some a =>
        dsimp only [Front.setCookie]
        have hproxy := uncookied_proxyPrimary (F := F) group r' (some a)
        by_cases htoken : Text.isToken F.sticky.cookie = true
        · rw [if_pos htoken]
          exact ⟨haffine, fun _ =>
            affine_confined hproxy (hchosen.affine_setCookie _) (hchosen.pledged rfl rfl htoken)⟩
        · rw [if_neg htoken]
          exact affine_confined hproxy haffine
            (hchosen.pledged_of_dropped (Bool.eq_false_of_not_eq_true htoken))
  · intro evs e hi he
    exact List.forall_mem_append.mpr ⟨hi, List.forall_mem_singleton.mpr he⟩

theorem fold_recorded (evs evs' : List FrontEvent) : F.recorded.fold evs evs' = evs ++ evs' := by
  induction evs' generalizing evs with
  | nil => exact (List.append_nil evs).symm
  | cons e evs' ih =>
    change F.recorded.fold (evs ++ [e]) evs' = _
    rw [ih, List.append_assoc]
    rfl

theorem affine_run (hs : F.sticky.enabled = true) (hc : F.sticky.cookie ≠ "") {group : List Backend}
    {s : Pool FrontOp FrontAns (Incoming × Backend) HedgeResult Unit}
    {ls : List (Label FrontOp FrontAns)}
    (hrun : exec (step F.attempt) { main := F.serveHTTP group r } ls = some s) :
    F.Affine (localLog none s.log) := by
  have hmain := (ends_main (affine_serveHTTP hs hc group r) hrun).inv
  rw [fold_recorded] at hmain
  exact hmain

end Pledge

section Next
variable {F : Front} {r : Incoming} {g : Group} {B : Balancer}

theorem backendToken_ne_empty (b : Backend) : backendToken b ≠ "" := by
  intro h
  have hlength := congrArg String.length h
  simp [backendToken, encodeToString] at hlength

theorem selectBackend_cookie (hs : F.sticky.enabled = true) (hc : F.sticky.cookie ≠ "")
    (hr : r.balancerCtx = some g) (hg : g.keyed = B.nextForKey.isSome) {w : World} {a : Backend}
    (hcookie : r.cookies.lookup F.sticky.cookie = some (backendToken a)) (ha : a ∈ w.getHealthy) :
    ∃ a', w.getHealthy.find? (fun x => backendToken x = backendToken a) = some a' ∧
      (F.selectBackend r).solo (answerFrom B) w = some (.returned (.ok (some a')), w.incrConn a') := by
  have haffinity : F.affinity r = backendToken a := by
    unfold Front.affinity Front.stickyToken
    rw [if_pos hs, if_neg hc, hcookie]
    rfl
  obtain ⟨a', hfind⟩ :
      ∃ a', w.getHealthy.find? (fun x => backendToken x = backendToken a) = some a' := by
    rw [← Option.isSome_iff_exists, List.find?_isSome]
    exact ⟨a, ha, by simp⟩
  refine ⟨a', hfind, ?_⟩
  rw [Front.selectBackend_solo hr hg]
  unfold Front.pinned
  rw [haffinity, if_neg (backendToken_ne_empty a), hfind]

end Next

/-- Whichever backend answers, the one affinity cookie names the backend that was assigned; where
the configured name is no token there is none. A later request with it is assigned the first
healthy backend with that token, which is the same if no other URL shares the token and it is the
only one of its URL. -/
theorem affinity_cookie_names_assigned (F : Front) (hs : F.sticky.enabled = true)
    (hc : F.sticky.cookie ≠ "") {group : List Backend} {r : Incoming}
    {s : Pool FrontOp FrontAns (Incoming × Backend) HedgeResult Unit}
    {ls : List (Label FrontOp FrontAns)}
    (hrun : exec (step F.attempt) { main := F.serveHTTP group r } ls = some s)
    {before after : List FrontEvent} {e : FrontEvent}
    (hlog : localLog none s.log = before ++ e :: after) {b : Backend}
    (hb : answeredBy before e = some b) :
    ∃ a c, before.findSome? reservedFor = some a ∧
      before.filterMap cookieSet = (if Text.isToken F.sticky.cookie then [c] else []) ∧
      after.filterMap cookieSet = [] ∧ c.name = F.sticky.cookie ∧ c.value = backendToken a ∧
      (c.value = backendToken b ↔ backendToken a = backendToken b) ∧
      ∀ (r' : Incoming) (g : Group) (B : Balancer) (w : World), r'.balancerCtx = some g →
        g.keyed = B.nextForKey.isSome → r'.cookies.lookup c.name = some c.value → a ∈ w.getHealthy →
        ∃ a', w.getHealthy.find? (fun x => backendToken x = backendToken a) = some a' ∧
          (F.selectBackend r').solo (answerFrom B) w =
            some (.returned (.ok (some a')), w.incrConn a') ∧
          ((∀ x ∈ w.getHealthy, x.url ≠ a.url → backendToken x ≠ backendToken a) →
            a'.url = a.url ∧ ((∀ x ∈ w.getHealthy, x.url = a.url → x = a) → a' = a)) := by
  obtain ⟨⟨a, c, ha, hcookie, hname, hvalue⟩, hafter⟩ :=
    affine_run hs hc hrun before e after hlog (mayAnswer_of_answeredBy hb)
  refine ⟨a, c, ha, hcookie, hafter, hname, hvalue, by rw [hvalue], ?_⟩
  intro r' g B w hr hg hlookup hhealthy
  rw [hname, hvalue] at hlookup
  obtain ⟨a', hfind, hsolo⟩ := selectBackend_cookie hs hc hr hg hlookup hhealthy
  refine ⟨a', hfind, hsolo, fun hdistinct => ?_⟩
  have hmem := List.mem_of_find?_eq_some hfind
  have htoken : backendToken a' = backendToken a := by simpa using List.find?_some hfind
  have hurl : a'.url = a.url := by
    by_contra hne
    exact hdistinct a' hmem hne htoken
  exact ⟨hurl, fun hunique => hunique a' hmem hurl⟩

def stickyFront : Front :=
  { balancer := { id := 0 }, sticky := { enabled := true, cookie := "rplb_affinity" } }

/-- The balancer assigns `a`, which refuses the connection, and then lists `b`, which answers. -/
def stickyFailover (a b : Backend) : List (Label FrontOp FrontAns) :=
  [.answer (.next { id := 0 }) (.ok (some a)),
    .answer (.setCookie { name := "rplb_affinity", value := backendToken a }) (),
    .answer (.plain (.note (.visit a))) (), .answer (.plain (.count .retryReqs)) (),
    .answer (.plain (.recordBackendRequest a)) (), .answer (.plain (.proxyFor a)) none,
    .answer (.plain (.serveHTTP .client a)) (.served (some { dial := true }) false 0 0),
    .answer (.plain (.count (.backendLatency a))) (), .answer (.plain (.count (.backendError a))) (),
    .answer (.plain (.decrConn a)) (), .answer (.getHealthy { id := 0 }) [a, b],
    .answer (.plain (.incrConn b)) (), .answer (.plain (.note (.visit b))) (),
      .answer (.plain (.count .retryReqs)) (),
    .answer (.plain (.recordBackendRequest b)) (), .answer (.plain (.proxyFor b)) none,
    .answer (.plain (.serveHTTP .client b)) (.served none true 200 0)].map .main

def urlBackend (addr : ℕ) (url : String) : Backend := { addr := addr, url := url }

theorem stickyFailover_answered :
    let a := urlBackend 1 "http://a"
    let b := urlBackend 2 "http://b"
    ∃ (s : Pool FrontOp FrontAns (Incoming × Backend) HedgeResult Unit) (before : List FrontEvent) (e :
      FrontEvent),
      exec (step stickyFront.attempt)
        { main := stickyFront.serveHTTP [a, b] { request := { method := "GET" } } }
        (stickyFailover a b) = some s ∧
      localLog none s.log = before ++ [e] ∧ answeredBy before e = some b ∧
      before.filterMap cookieSet = [{ name := "rplb_affinity", value := backendToken a }] := by
  intro a b
  have h :
      (exec (step stickyFront.attempt)
      { main := stickyFront.serveHTTP [a, b] { request := { method := "GET" } } }
      (stickyFailover a b)).any (fun s => (localLog none s.log).getLast?.any fun e =>
        answeredBy (localLog none s.log).dropLast e = some b ∧
          (localLog none s.log).dropLast.filterMap cookieSet =
          [{ name := "rplb_affinity", value := backendToken a }]) = true := by decide +kernel
  obtain ⟨s, hs, hlast⟩ := (Option.any_eq_true _ _).mp h
  obtain ⟨e, he, hb⟩ := (Option.any_eq_true _ _).mp hlast
  obtain ⟨hb, hc⟩ := of_decide_eq_true hb
  exact ⟨s, _, e, hs, (List.dropLast_append_getLast? e he).symm, hb, hc⟩

theorem affinity_cookie_names_assigned_failover :
    ∃ (before : List FrontEvent) (a : Backend) (c : Cookie), before.findSome? reservedFor = some a ∧
      before.filterMap cookieSet = [c] ∧ c.value = backendToken a := by
  obtain ⟨s, before, e, hrun, hlog, hb, -⟩ := stickyFailover_answered
  obtain ⟨a, c, ha, hc, -, -, hvalue, -⟩ :=
    affinity_cookie_names_assigned stickyFront rfl (by decide) hrun hlog hb
  have htoken : Text.isToken stickyFront.sticky.cookie = true := by decide +kernel
  rw [if_pos htoken] at hc
  exact ⟨before, a, c, ha, hc, hvalue⟩

/-- The response of the second backend carries the token of the first. -/
theorem cookie_names_refusing_backend :
    let a := urlBackend 1 "http://a"
    let b := urlBackend 2 "http://b"
    ∃ (s : Pool FrontOp FrontAns (Incoming × Backend) HedgeResult Unit) (before : List FrontEvent) (e :
      FrontEvent)
      (c : Cookie),
      exec (step stickyFront.attempt)
        { main := stickyFront.serveHTTP [a, b] { request := { method := "GET" } } }
        (stickyFailover a b) = some s ∧
      localLog none s.log = before ++ [e] ∧ answeredBy before e = some b ∧
        before.filterMap cookieSet = [c] ∧
      c.value ≠ backendToken b := by
  intro a b
  obtain ⟨s, before, e, hrun, hlog, hb, hc⟩ := stickyFailover_answered
  have hne : backendToken a ≠ backendToken b := by decide +kernel
  exact ⟨s, before, e, _, hrun, hlog, hb, hc, hne⟩

end ReverseProxyLb.Proxy
