import ReverseProxyLb.Proxy.Plays

/-! An attempt whose context is cancelled, by a client that goes away or by a hedge that has
won, ends in an error of class `timeout`, and is reported as one. -/
namespace ReverseProxyLb.Proxy
open Lib Pool

def UpstreamError.cancelled (err : UpstreamError) : Bool :=
  err.canceled && !err.deadlineExceeded && !err.ctxDeadline

def Reply.cancelled : Reply → Bool
  | .served (some err) _ _ _ _ => err.cancelled
  | _ => false

def Op.reported : Op → Option Backend
  | .recordSuccess b | .recordFailure b | .observeOutcome b _ => some b
  | _ => none

/-- The backend of a thread's last attempt, if cancelled, and the reports after a cancelled
attempt. -/
structure Conduct where
  cancelled : Option Backend := none
  reports : List Op := []
  deriving DecidableEq

def Conduct.after (g : Conduct) : Happening → Conduct
  | .env (.recordBackendRequest _) _ => { g with cancelled := none }
  | .env (.serveHTTP _ b) reply =>
    { g with cancelled := if Reply.cancelled reply then some b else none }
  | .env o _ =>
    if o.reported.isSome && o.reported == g.cancelled then { g with reports := g.reports ++ [o] }
      else g
  | _ => g

def cancelReports (events : List Happening) : List Op := (events.foldl Conduct.after {}).reports

/-- The balancer is told of a failure, and the breaker what it is told of a timeout. -/
inductive AsTimeout (p : Settings) : Op → Prop
  | outcome (b : Backend) : AsTimeout p (.observeOutcome b false)
  | failure (b : Backend) : p.circuitBreaker = true → p.tripOn .timeout = true →
    AsTimeout p (.recordFailure b)
  | success (b : Backend) : p.circuitBreaker = true → p.tripOn .timeout = false →
    AsTimeout p (.recordSuccess b)

/-- The report counts against a backend; `observes` tells whether the balancer of the
request's group observes outcomes. -/
def accuses (observes : Bool) : Op → Bool
  | .recordFailure _ => true
  | .observeOutcome _ ok => observes && !ok
  | _ => false

def conduct (p : Settings) : Discipline Op Ans Backend HedgeResult Conduct where
  upd := Conduct.after
  inv g := ∀ o ∈ g.reports, AsTimeout p o

section Conduct
variable {p : Settings} {r : Request} {b : Backend} {tried : List Backend} {g : Conduct}
  {res : Attempted}

theorem aside_conduct {e : Happening} (h : Aside e) (g : Conduct) : g.after e = g := by
  cases e with
  | env o a =>
    cases o with
    | recordSuccess | recordFailure | observeOutcome | observeLatency | recordBackendRequest | proxyFor | serveHTTP =>
      exact h.elim
    | _ => rfl
  | _ => rfl

theorem pacing_conduct {o : Op} (h : Pacing o) (a : Ans o) (g : Conduct) : g.after (.env o a) = g := by
  cases o with
  | recordSuccess | recordFailure | observeOutcome | recordBackendRequest | serveHTTP => exact h.elim
  | _ => rfl

theorem classifyError_cancelled {err : UpstreamError} (h : err.cancelled = true) :
    classifyError err = .timeout := by
  have hcanceled : err.canceled = true := by
    simp only [UpstreamError.cancelled, Bool.and_eq_true] at h
    exact h.1.1
  simp [classifyError, hcanceled]

/-- If the last attempt was cancelled then it was on a backend tried before, or on `b`
with the result of a timeout. -/
def Conduct.Fits (tried : List Backend) (b : Backend) (res : Attempted) (g : Conduct) : Prop :=
  ∀ x, g.cancelled = some x → x ∈ tried ∨ (x = b ∧ res.err.isSome = true ∧ res.cls = .timeout)

theorem fits_served (tried : List Backend) (w : Writer) (b : Backend) (g : Conduct)
    {err : UpstreamError} (wrote : Bool) (code retryAfter : ℤ) (content : Content) {res : Attempted}
    (herr : res.err = some err) (hcls : res.cls = classifyError err) :
    (g.after (.env (.serveHTTP w b) (.served (some err) wrote code retryAfter content))).Fits tried b
      res := by
  intro x hx
  change (if err.cancelled = true then some b else none) = some x at hx
  split_ifs at hx with hc
  right
  rw [herr, hcls]
  exact ⟨(Option.some.inj hx).symm, rfl, classifyError_cancelled hc⟩

theorem fits_none (tried : List Backend) (b : Backend) (res : Attempted) (h : g.cancelled = none) :
    g.Fits tried b res := by
  intro x hx
  rw [h] at hx
  cases hx

theorem conduct_roundTrip {α : Type} {w : Writer} {refused : UpstreamError → α}
    {failed : UpstreamError → Bool → ℤ → Content → α} {answered : Bool → ℤ → ℤ → Content → α}
    (f : α → Attempted)
    (hfailed : ∀ err wrote code content, (f (failed err wrote code content)).err = some err ∧
      (f (failed err wrote code content)).cls = classifyError err)
    (tried : List Backend) (hi : (conduct p).inv g) :
    Ends (conduct p) (fun res g' => g'.Fits tried b (f res)) (roundTrip w b refused failed answered)
      g := by
  refine ⟨hi, fun _ => ⟨hi, fun failed => ?_⟩⟩
  cases failed with
  | some err => exact ⟨hi, fits_none tried b _ rfl⟩
  | none =>
    refine ⟨hi, fun reply => ?_⟩
    cases reply with
    | panicked wrote => exact hi
    | served err wrote code retryAfter content =>
      refine ⟨hi, fun _ => ?_⟩
      cases err with
      | some err =>
        obtain ⟨herr, hcls⟩ := hfailed err wrote code content
        exact ⟨hi, fits_served tried w b _ wrote code retryAfter content herr hcls⟩
      | none =>
        dsimp only [Prog.bind]
        by_cases hok : responseClass code = .ok
        · rw [if_pos hok]
          exact ⟨hi, fun _ => ⟨hi, fits_none tried b _ rfl⟩⟩
        · rw [if_neg hok]
          exact ⟨hi, fits_none tried b _ rfl⟩

theorem conduct_doRequest (tried : List Backend) (hi : (conduct p).inv g) :
    Ends (conduct p) (fun res g' => g'.Fits tried b res) (doRequest p b) g := by
  rw [doRequest_eq]
  exact conduct_roundTrip id (fun _ _ _ _ => ⟨rfl, rfl⟩) tried hi

theorem conduct_doHedgeAttempt (tried : List Backend) (hi : (conduct p).inv g) :
    Ends (conduct p) (fun res g' => g'.Fits tried b res.1) (doHedgeAttempt b) g := by
  rw [doHedgeAttempt_eq]
  exact conduct_roundTrip Prod.fst (fun _ _ _ _ => ⟨rfl, rfl⟩) tried hi

theorem conduct_attemptLoop (n attempt : ℕ) (last : Attempted) (hi : (conduct p).inv g)
    (hg : g.Fits tried b last) :
    Ends (conduct p) (fun res g' => g'.Fits tried b res) (attemptLoop p b n attempt last) g := by
  induction n generalizing attempt last g with
  | zero => exact ⟨hi, hg⟩
  | succ n ih =>
    apply ends_bind.mpr
    apply ((pacing_beforeRetry p attempt last.retryAfter).confined fun _ => id).ends _ hi
    · intro go _
      cases go with
      | false => exact ⟨hi, hg⟩
      | true =>
        apply ends_bind.mpr
        apply (conduct_doRequest tried hi).mono
        intro res g' hi' hg'
        cases herr : res.err with
        | none => exact ⟨hi', hg'⟩
        | some err =>
          refine ⟨hi', fun _ => ?_⟩
          dsimp only [Prog.bind]
          split_ifs
          · exact ⟨hi', hg'⟩
          · rw [← herr]
            exact ⟨hi', hg'⟩
          · exact ih (attempt + 1) res hi' hg'
    · intro e he
      cases e with
      | env o a => exact pacing_conduct he a g
      | _ => exact he.elim

theorem inv_report {o : Op} (hi : (conduct p).inv g) (ho : o.reported = some b) (a : Ans o)
    (h : g.cancelled = some b → AsTimeout p o) : (conduct p).inv (g.after (.env o a)) ∧
      (g.after (.env o a)).cancelled = g.cancelled := by
  have hafter : g.after (.env o a) = if o.reported.isSome && o.reported == g.cancelled then
      { g with reports := g.reports ++ [o] } else g := by
    cases o with
    | recordBackendRequest | serveHTTP => cases ho
    | _ => rfl
  rw [hafter, ho]
  split_ifs with hb
  · refine ⟨fun o' ho' => ?_, rfl⟩
    obtain ho' | ho' := List.mem_append.mp ho'
    · exact hi o' ho'
    · rw [List.mem_singleton.mp ho']
      exact h (by simpa using hb : some b = g.cancelled).symm
  · exact ⟨hi, rfl⟩

theorem conduct_report (hb : b ∉ tried) (hi : (conduct p).inv g) (hg : g.Fits tried b res) :
    Ends (conduct p) (fun _ g' => ∀ x, g'.cancelled = some x → x ∈ b :: tried) (report p b res) g := by
  have hown : g.cancelled = some b → res.err.isSome = true ∧ res.cls = .timeout := by
    intro hc
    exact ((hg b hc).resolve_left hb).2
  have htried : ∀ x, g.cancelled = some x → x ∈ b :: tried := by
    intro x hx
    obtain h | h := hg x hx
    · exact List.mem_cons_of_mem _ h
    · exact h.1 ▸ List.mem_cons_self
  refine ⟨hi, fun _ => ?_⟩
  have houtcome := inv_report (o := .observeOutcome b res.err.isNone) hi rfl () fun hc => by
    rw [Option.isNone_eq_false_iff.mpr (hown hc).1]
    exact .outcome b
  change Ends (conduct p) _
    (recordCircuit p b res.cls) (g.after (.env (.observeOutcome b res.err.isNone) ()))
  generalize g.after (.env (.observeOutcome b res.err.isNone) ()) = g' at houtcome
  obtain ⟨hi', hsame⟩ := houtcome
  unfold recordCircuit
  split_ifs with hbreaker htrip
  · have hfailure := inv_report (o := .recordFailure b) hi' rfl () fun hc => by
      rw [hsame] at hc
      rw [(hown hc).2] at htrip
      exact .failure b hbreaker htrip.2
    exact ⟨hi', fun _ => ⟨hfailure.1, fun x hx => htried x (by rw [← hsame, ← hfailure.2]; exact hx)⟩⟩
  · have hsuccess := inv_report (o := .recordSuccess b) hi' rfl () fun hc => by
      rw [hsame] at hc
      rw [(hown hc).2] at htrip
      exact .success b hbreaker (by simpa using htrip)
    exact ⟨hi', fun _ => ⟨hsuccess.1, fun x hx => htried x (by rw [← hsame, ← hsuccess.2]; exact hx)⟩⟩
  · exact ⟨hi', fun x hx => htried x (hsame ▸ hx)⟩

def conductRounds (p : Settings) (r : Request) : Rounds p r (conduct p) where
  between tried g := (conduct p).inv g ∧ ∀ b, g.cancelled = some b → b ∈ tried
  inv h := h.1
  aside _ he := aside_conduct he _
  skip h := ⟨h.1, fun x hx => List.mem_cons_of_mem _ (h.2 x hx)⟩
  round := by
    intro b tried g hb h
    apply Ends.deferring
    · intro g hi
      exact ⟨hi, fun _ => ⟨hi, trivial⟩⟩
    · refine ⟨h.1, fun _ => ?_⟩
      apply (conduct_attemptLoop _ 0 _ h.1 fun x hx => .inl (h.2 x hx)).mono
      intro res g' hi' hg'
      refine ⟨hi', fun _ => ⟨hi', ?_⟩⟩
      exact (conduct_report hb hi' hg').mono fun _ _ hi hx => ⟨hi, hx⟩

theorem conduct_hedgeAttempt (p : Settings) (b : Backend) :
    Ends (conduct p) (fun _ _ => True) (hedgeAttempt p b) {} := by
  have hi : (conduct p).inv {} := by
    intro o ho
    cases ho
  apply ends_bind.mpr
  apply (conduct_doHedgeAttempt [] hi).mono
  intro res g hi hg
  have hreport := conduct_report (List.not_mem_nil) hi hg
  refine ends_perform_bind.mpr ⟨hreport.1, fun a => ends_bind.mpr ?_⟩
  apply (hreport.2 a).mono
  intro _ g' hi' _
  exact ⟨hi', fun _ => ⟨hi', hi', trivial⟩⟩

theorem asTimeout_of_reaches {group : List Backend} {primary : Backend} {s : Handlers}
    (h : Reaches p group r primary s) (who : Option ℕ) {o : Op}
    (ho : o ∈ cancelReports (localLog who s.log)) :
    AsTimeout p o := by
  obtain ⟨⟨ls, hrun⟩, -⟩ := h
  have hstart : (conductRounds p r).between [] {} := by
    constructor
    · intro o ho
      cases ho
    · intro x hx
      cases hx
  have hall :=
    followed_ends (conduct_hedgeAttempt p) ((conductRounds p r).proxyRequest hstart group primary) hrun
  cases who with
  | none => exact hall.main.inv o ho
  | some i =>
    by_cases hi : i < s.spawned.length
    · exact (hall.spawned i _ _ (List.getElem?_eq_getElem hi)).inv o ho
    · rw [hall.known i (not_lt.mp hi)] at ho
      cases ho

end Conduct

section Play
variable {p : Settings} {group : List Backend}

theorem played_cancelled (p : Settings) (group : List Backend) (b : Backend) :
    Played Conduct.after group {} (attemptBackend p { method := "POST" } b) { cancelled := some b }
      { err := some { canceled := true }, cls := .timeout, written := false } := by
  have hdone : Played Conduct.after group
      { cancelled := some b } (decrConn b) { cancelled := some b } () :=
    played_perform (o := Op.decrConn b) () trivial rfl
  apply Plays.deferring _ hdone
  refine (played_perform (o := Op.count .retryReqs) () trivial rfl).bind ?_
  refine (played_perform (o := Op.recordBackendRequest b) () trivial rfl).bind ?_
  refine (played_perform (o := Op.proxyFor b) none trivial rfl).bind ?_
  refine (played_perform (o := Op.serveHTTP .client b) (.served (some { canceled := true }) false 0 0)
    trivial
    rfl).bind ?_
  refine (played_perform (o := Op.count (.backendLatency b)) () trivial rfl).bind ?_
  refine (played_perform (o := Op.count (.backendError b)) () trivial rfl).bind ?_
  simp only [Bool.false_eq_true, if_false]
  split_ifs
  · exact .ret _ _
  · exact .ret _ _

/-- The reports about an attempt on `b` that timed out. -/
def timeoutReports (p : Settings) (b : Backend) : List Op :=
  Op.observeOutcome b false ::
    if p.circuitBreaker then [if p.tripOn .timeout then .recordFailure b else .recordSuccess b] else []

theorem after_reported {b : Backend} {o : Op} (ho : o.reported = some b) (a : Ans o)
    (reports : List Op) :
    Conduct.after { cancelled := some b, reports := reports } (.env o a) =
      { cancelled := some b, reports := reports ++ [o] } := by
  cases o with
  | recordSuccess | recordFailure | observeOutcome =>
    cases ho
    simp [Conduct.after, Op.reported]
  | _ => cases ho

theorem played_report (p : Settings) (group : List Backend) (b : Backend) :
    Played Conduct.after group { cancelled := some b }
      (report p b { err := some { canceled := true }, cls := .timeout, written := false })
      { cancelled := some b, reports := timeoutReports p b } () := by
  refine .op () trivial (congrArg some (after_reported (o := .observeOutcome b false) rfl () [])) ?_
  change Played Conduct.after group { cancelled := some b, reports := [.observeOutcome b false] }
    (recordCircuit p b .timeout) _ ()
  unfold recordCircuit timeoutReports
  cases p.circuitBreaker with
  | false => exact .ret _ _
  | true =>
    cases p.tripOn .timeout with
    | true =>
      have hafter := after_reported (o := .recordFailure b) rfl () [.observeOutcome b false]
      exact played_perform (o := Op.recordFailure b) () trivial hafter
    | false =>
      have hafter := after_reported (o := .recordSuccess b) rfl () [.observeOutcome b false]
      exact played_perform (o := Op.recordSuccess b) () trivial hafter

theorem reaches_cancelReports (p : Settings) (group : List Backend) (b : Backend) :
    ∃ s, Reaches p group { method := "POST" } b s ∧
      cancelReports (localLog none s.log) = timeoutReports p b := by
  have hplay := (played_cancelled p group b).proxyRequest (fun g e he => aside_conduct he g)
      (played_report p group b)
    rfl rfl
  obtain ⟨s, hreach, hghost, hlog⟩ := hplay.reaches
  refine ⟨s, hreach, ?_⟩
  rw [hlog]
  exact congrArg Conduct.reports hghost

end Play

/-- The handler receives a response of `b`. -/
def isHedgeWinner (b : Backend) : Happening → Bool
  | .recv hr => hr.backend = b ∧ isHedgeWin hr
  | _ => false

/-- Every report about a cancelled attempt is one of a timeout. None counts against a backend, in
any run, exactly if no breaker is told of timeouts and the balancer does not observe outcomes. -/
theorem cancellations_unblamed_iff (p : Settings) (observes : Bool) :
    (∀ group r primary s, Reaches p group r primary s →
      ∀ who, ∀ o ∈ cancelReports (localLog who s.log), AsTimeout p o) ∧
    ((∀ group r primary s, Reaches p group r primary s →
        ∀ who, ∀ o ∈ cancelReports (localLog who s.log), accuses observes o = false) ↔
      (p.circuitBreaker = true → p.tripOn .timeout = false) ∧ observes = false) := by
  have hreports : ∀ group r primary s, Reaches p group r primary s →
      ∀ who, ∀ o ∈ cancelReports (localLog who s.log), AsTimeout p o :=
    fun _ _ _ _ h who _ ho => asTimeout_of_reaches h who ho
  refine ⟨hreports, ?_⟩
  constructor
  · intro hclean
    obtain ⟨s, hreach, hlog⟩ := reaches_cancelReports p [] { addr := 0 }
    have htold : ∀ o ∈ timeoutReports p { addr := 0 }, accuses observes o = false := by
      rw [← hlog]
      exact hclean [] _ _ s hreach none
    constructor
    · intro hbreaker
      by_contra htrip
      have hfailure := htold (.recordFailure { addr := 0 }) (by simp [timeoutReports, hbreaker, htrip])
      cases hfailure
    · have houtcome := htold (.observeOutcome { addr := 0 } false) (by simp [timeoutReports])
      simpa [accuses] using houtcome
  · rintro ⟨htrip, hobserves⟩ group r primary s h who o ho
    cases hreports group r primary s h who o ho with
    | outcome b => simp [accuses, hobserves]
    | failure b hbreaker hfailure =>
      rw [htrip hbreaker] at hfailure
      cases hfailure
    | success b => rfl

/-- The extra has won the race; the attempt on the primary is cancelled, and breaker and balancer
are told that it failed. -/
theorem cancelled_loser_blamed :
    let p : Settings :=
      { circuitBreaker := true, retryConfig := { hedge := { enabled := true, maxExtra := 1 } } }
    let a : Backend := { addr := 1 }
    let b : Backend := { addr := 2 }
    ∃ s, Reaches p [a, b] { method := "GET" } a s ∧ total (isHedgeWinner b) s.log = 1 ∧
      cancelReports (localLog (some 0) s.log) = [.observeOutcome a false, .recordFailure a] := by
  intro p a b
  let ls : List (Label Op Ans) :=
    raceOf a b ++ answers 1 b ++ [.main .go] ++
      [.spawned 0 (.answer (.recordBackendRequest a) ()), .spawned 0 (.answer (.proxyFor a) none),
        .spawned 0 (.answer (.serveHTTP .recorder a) (.served (some { canceled := true }) false 0 0)),
        .spawned 0 (.answer (.count (.backendLatency a)) ()),
          .spawned 0 (.answer (.observeOutcome a false) ()),
        .spawned 0 (.answer (.recordFailure a) ())]
  have h :
      ∃ s ∈ exec (step (hedgeAttempt p)) { main := proxyRequest p [a, b] { method := "GET" } a } ls,
      (∀ x ∈ s.log, Grouped [a, b] x.2) ∧ total (isHedgeWinner b) s.log = 1 ∧
      cancelReports (localLog (some 0) s.log) = [.observeOutcome a false, .recordFailure a] := by
        decide +kernel
  obtain ⟨s, hs, hlog, hwon, hreports⟩ := h
  exact ⟨s, ⟨⟨ls, hs⟩, hlog⟩, hwon, hreports⟩

end ReverseProxyLb.Proxy
