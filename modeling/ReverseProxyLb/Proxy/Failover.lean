import ReverseProxyLb.Proxy.Containment

/-! The trail of a handler: the backends its failover loop visited, the attempts it made on
them, and the responses it wrote itself, each with the latest first. -/
namespace ReverseProxyLb.Proxy
open Lib Pool

/-- How an attempt ended, and whether it wrote to the client. -/
inductive Fate where
  | failed (err : UpstreamError) (wrote : Bool)
  | answered (wrote : Bool)
  | panicked (wrote : Bool)
  deriving DecidableEq

def Fate.wrote : Fate → Bool
  | .failed _ wrote | .answered wrote | .panicked wrote => wrote

def Reply.fate : Reply → Fate
  | .panicked wrote => .panicked wrote
  | .served (some err) wrote _ _ _ => .failed err wrote
  | .served none wrote _ _ _ => .answered wrote

def Attempted.fate (res : Attempted) : Fate :=
  match res.err with
  | some err => .failed err res.written
  | none => .answered res.written

/-- An attempt on a backend, without a fate as long as it runs. -/
structure Attempt where
  backend : Backend
  fate : Option Fate
  deriving DecidableEq

def Attempt.wrote (t : Attempt) : Bool := (t.fate.map Fate.wrote).getD false

structure Trail where
  visits : List Backend := []
  attempts : List Attempt := []
  /-- The codes of the responses the proxy made up. -/
  generated : List ℤ := []
  /-- The codes of recorded responses that were copied to the client. -/
  copied : List ℤ := []
  deriving DecidableEq

namespace Trail

def begin (g : Trail) (b : Backend) : Trail := { g with attempts := ⟨b, none⟩ :: g.attempts }

def conclude (g : Trail) (f : Fate) : Trail :=
  { g with attempts := match g.attempts with
      | t :: rest => { t with fate := some f } :: rest
      | [] => [] }

def ended (g : Trail) (b : Backend) (f : Fate) : Trail :=
  { g with attempts := ⟨b, some f⟩ :: g.attempts }

def upd (g : Trail) : Happening → Trail
  | .env (.note (.visit b)) _ => { g with visits := b :: g.visits }
  | .env (.recordBackendRequest b) _ => g.begin b
  | .env (.proxyFor _) err =>
    match (show Option UpstreamError from err) with
    | some err => g.conclude (.failed err false)
    | none => g
  | .env (.serveHTTP .client _) reply => g.conclude (Reply.fate reply)
  | .env (.httpError code _) _ => { g with generated := code :: g.generated }
  | .env (.writeResponse code _) _ => { g with copied := code :: g.copied }
  | _ => g

end Trail

def Untracked : Happening → Prop
  | .env (.note (.visit _)) _ | .env (.recordBackendRequest _) _ | .env (.proxyFor _) _
  | .env (.serveHTTP .client _) _ | .env (.httpError _ _) _ | .env (.writeResponse _ _) _ => False
  | _ => True

theorem upd_untracked (g : Trail) {e : Happening} (h : Untracked e) : g.upd e = g := by
  cases e with
  | env o a =>
    cases o with
    | note n => cases n <;> first | exact h.elim | rfl
    | serveHTTP w b => cases w <;> first | exact h.elim | rfl
    | recordBackendRequest | proxyFor | httpError | writeResponse => exact h.elim
    | _ => rfl
  | fork | send | recv | timeout => rfl

/-- It failed with nothing written, and the request is idempotent or never reached the backend. -/
def Replayable (r : Request) (t : Attempt) : Prop :=
  ∃ err, t.fate = some (.failed err false) ∧ (isIdempotent r ∨ isConnectError err)

/-- What holds of the trail of a request at any moment. -/
structure Orderly (r : Request) (g : Trail) : Prop where
  visits : g.visits.Nodup
  visited : ∀ t ∈ g.attempts, t.backend ∈ g.visits
  /-- Every attempt but the last failed with nothing written. -/
  earlier : ∀ t ∈ g.attempts.tail, Replayable r t
  once : isIdempotent r = false → (g.attempts.map Attempt.backend).Nodup
  /-- At most one response is written. -/
  single : (g.attempts.filter Attempt.wrote).length + g.generated.length + g.copied.length ≤ 1
  codes : ∀ code ∈ g.generated, code = badGateway ∨ code = serviceUnavailable
  /-- A recorded response is copied on the hedged path only. -/
  hedged : g.copied ≠ [] → g.visits = []

/-- Nothing has been written to the client. -/
structure Unanswered (r : Request) (g : Trail) : Prop extends Orderly r g where
  failed : ∀ t ∈ g.attempts, ∃ err, t.fate = some (.failed err false)
  silent : g.generated = []
  uncopied : g.copied = []

structure Retryable (r : Request) (g : Trail) : Prop extends Unanswered r g where
  replayable : ∀ t ∈ g.attempts, Replayable r t

section Moves
variable {r : Request} {g : Trail} {b : Backend}

theorem Unanswered.unwritten (h : Unanswered r g) : g.attempts.filter Attempt.wrote = [] := by
  rw [List.filter_eq_nil_iff]
  intro t ht
  obtain ⟨err, hf⟩ := h.failed t ht
  simp [Attempt.wrote, hf, Fate.wrote]

theorem retryable_start : Retryable r {} := by
  refine ⟨⟨⟨?_, ?_, ?_, ?_, ?_, ?_, ?_⟩, ?_, rfl, rfl⟩, ?_⟩ <;> simp

theorem Retryable.visit (h : Retryable r g) (hb : b ∉ g.visits) :
    Retryable r { g with visits := b :: g.visits } :=
  ⟨⟨⟨List.nodup_cons.mpr ⟨hb, h.visits⟩, fun t ht => List.mem_cons_of_mem _ (h.visited t ht),
    h.earlier,
    h.once, h.single, h.codes, fun hc => absurd h.uncopied hc⟩, h.failed, h.silent, h.uncopied⟩,
      h.replayable⟩

theorem Retryable.attempt (h : Retryable r g) (hb : b ∈ g.visits)
    (hfresh : isIdempotent r = false → ∀ t ∈ g.attempts, t.backend ≠ b) (fate : Option Fate) :
    Orderly r { g with attempts := ⟨b, fate⟩ :: g.attempts } := by
  refine ⟨h.visits, ?_, h.replayable, fun hi => ?_, ?_, h.codes, h.hedged⟩
  · exact List.forall_mem_cons.mpr ⟨hb, h.visited⟩
  · refine List.nodup_cons.mpr ⟨fun hmem => ?_, h.once hi⟩
    obtain ⟨t, ht, hbt⟩ := List.mem_map.mp hmem
    exact hfresh hi t ht hbt
  · rw [List.filter_cons, h.unwritten, h.silent, h.uncopied]
    split <;> simp

theorem Retryable.failed_attempt (h : Retryable r g) (hb : b ∈ g.visits)
    (hfresh : isIdempotent r = false → ∀ t ∈ g.attempts, t.backend ≠ b) (err : UpstreamError) :
    Unanswered r (g.ended b (.failed err false)) :=
  ⟨h.attempt hb hfresh _, List.forall_mem_cons.mpr ⟨⟨err, rfl⟩, h.failed⟩, h.silent, h.uncopied⟩

theorem Unanswered.generate (h : Unanswered r g) {code : ℤ}
    (hc : code = badGateway ∨ code = serviceUnavailable) :
    Orderly r { g with generated := code :: g.generated } := by
  refine ⟨h.visits, h.visited, h.earlier, h.once, ?_, ?_, h.hedged⟩
  · simp [h.unwritten, h.silent, h.uncopied]
  · exact List.forall_mem_cons.mpr ⟨hc, h.codes⟩

theorem Unanswered.copy (h : Unanswered r g) (hv : g.visits = []) (code : ℤ) :
    Orderly r { g with copied := code :: g.copied } := by
  refine ⟨h.visits, h.visited, h.earlier, h.once, ?_, h.codes, fun _ => hv⟩
  simp [h.unwritten, h.silent, h.uncopied]

end Moves

def trail (r : Request) : Discipline Op Ans Backend HedgeResult Trail where
  upd := Trail.upd
  inv := Orderly r

section Untracked

theorem untracked_of_quiet {α : Type} {prog : Act α} (h : Only Bookkeeping prog) :
    Within Untracked prog := by
  refine Within.mono h fun e he => ?_
  cases e with
  | env o a => cases o <;> first | exact he.elim | trivial
  | fork | send | recv | timeout => exact he.elim

theorem untracked_available (p : Settings) (b : Backend) : Within Untracked (available p b) :=
  within_available p (fun _ => trivial) fun _ => trivial

theorem untracked_recordCircuit (p : Settings) (b : Backend) (cls : Class) :
    Within Untracked (recordCircuit p b cls) :=
  within_recordCircuit p (fun _ => trivial) (fun _ => trivial) cls

theorem untracked_reserveHedges
    (p : Settings) (primary : Backend) (n : ℤ) (out healthy : List Backend) :
    Within Untracked (reserveHedges p primary n out healthy) :=
  within_reserveHedges p
    (fun _ _ => trivial) (fun _ _ => trivial) (fun _ _ => trivial) primary n out healthy

theorem untracked_launch (b : Backend) : Within Untracked (launch b) := ⟨trivial, trivial⟩

theorem untracked_launchExtras (extras : List Backend) : Within Untracked (launchExtras extras) := by
  induction extras with
  | nil => exact within_pure _
  | cons b rest ih =>
    exact (untracked_of_quiet (quiet_count _)).bind fun _ => (untracked_launch b).bind fun _ => ih

theorem untracked_collect_launched (extras : List Backend) (fuel : ℕ) (race : Race)
    (hl : race.extrasLaunched) (hfuel : race.pending < fuel) :
    Within Untracked (collect extras fuel race) := by
  induction fuel generalizing race with
  | zero => omega
  | succ fuel ih =>
    unfold collect
    split_ifs with h0
    · exact within_pure _
    · exact fun hr => ⟨trivial, ih _ hl (by dsimp only; omega)⟩

theorem untracked_collect (extras : List Backend) :
    Within Untracked (collect extras (extras.length + 3) { pending := 1 }) := by
  refine ⟨⟨trivial, ?_⟩, fun hr => ⟨trivial, ?_⟩⟩
  · exact (untracked_launchExtras extras).bind fun _ =>
      untracked_collect_launched extras _ _ rfl (by dsimp only; omega)
  · change Within Untracked (if isHedgeWin hr = true then _ else _)
    split_ifs
    · exact within_pure _
    · exact (untracked_launchExtras extras).bind fun _ =>
        untracked_collect_launched extras _ _ rfl (by dsimp only; omega)

theorem untracked_drain (pending : ℕ) (winner : Option HedgeResult) :
    Within Untracked (drain pending winner) := by
  induction pending generalizing winner with
  | zero => exact within_pure _
  | succ pending ih => exact fun hr => ⟨trivial, ih _⟩

theorem untracked_releaseAll (extras : List Backend) : Within Untracked (releaseAll extras) :=
  within_releaseAll fun _ _ _ => trivial

end Untracked

def Resumable (r : Request) (res : Attempted) (g : Trail) : Prop :=
  match res.err with
  | none => Orderly r g
  | some err =>
    if res.written then Orderly r g
    else Unanswered r g ∧ (isIdempotent r ∨ isConnectError err → Retryable r g)

def Verdict.Fits (r : Request) (g : Trail) : Verdict → Prop
  | .done => Orderly r g
  | .stop _ => Unanswered r g
  | .next _ _ => Retryable r g

section Sequential
variable {p : Settings} {R : Happening → Prop} {r : Request} {g : Trail} {b : Backend}

theorem trail_untracked {α : Type} {prog : Act α} {Q : Outcome α → Trail → Prop}
    (h : Within Untracked prog) (hi : Orderly r g) (hq : ∀ a, Q (.returned a) g) :
    Safe R (trail r) Q prog g :=
  h.safe (fun _ he => upd_untracked g he) hi hq

theorem trail_op {α : Type} {o : Op} {f : Ans o → Act α} {Q : Outcome α → Trail → Prop}
    (h : ∀ a, Untracked (.env o a)) (hi : Orderly r g)
    (hf : ∀ a, R (.env o a) → Safe R (trail r) Q (f a) g) :
    Safe R (trail r) Q (Prog.perform o >>= f) g := by
  refine safe_perform_bind.mpr ⟨hi, fun a ha => ?_⟩
  rw [show (trail r).upd g (.env o a) = g from upd_untracked g (h a)]
  exact hf a ha

theorem trail_doRequest (h : Retryable r g) (hb : b ∈ g.visits)
    (hfresh : isIdempotent r = false → ∀ t ∈ g.attempts, t.backend ≠ b)
    {Q : Outcome Attempted → Trail → Prop} (hret : ∀ res, Q (.returned res) (g.ended b res.fate))
    (hpanic : ∀ wrote, Q .panicked (g.ended b (.panicked wrote))) :
    Safe R (trail r) Q (doRequest p b) g := by
  have ho : ∀ f, Orderly r (g.ended b f) := fun f => h.attempt hb hfresh (some f)
  refine safe_perform_bind.mpr ⟨h.toOrderly, fun _ _ => ?_⟩
  refine safe_perform_bind.mpr ⟨h.attempt hb hfresh none, fun failed _ => ?_⟩
  cases failed with
  | some err => exact ⟨ho _, hret _⟩
  | none =>
    refine safe_perform_bind.mpr ⟨h.attempt hb hfresh none, fun reply _ => ?_⟩
    cases reply with
    | panicked wrote => exact ⟨ho _, hpanic wrote⟩
    | served err wrote code retryAfter content =>
      cases err with
      | some err =>
        exact trail_op (fun _ => trivial) (ho (.failed err wrote)) fun _ _ =>
          ⟨ho _, hret { err := some err, cls := classifyError err, written := wrote }⟩
      | none =>
        refine trail_op (fun _ => trivial) (ho (.answered wrote)) fun _ _ => ?_
        dsimp only
        split
        · exact trail_op (fun _ => trivial) (ho _) fun _ _ =>
            ⟨ho _, hret { err := none, cls := _, written := wrote, retryAfter := _ }⟩
        · exact ⟨ho _, hret { err := none, cls := _, written := wrote, retryAfter := _ }⟩

theorem Retryable.resumable (h : Retryable r g) (hb : b ∈ g.visits)
    (hfresh : isIdempotent r = false → ∀ t ∈ g.attempts, t.backend ≠ b) (err : UpstreamError) :
    Unanswered r (g.ended b (.failed err false)) ∧
      (isIdempotent r ∨ isConnectError err → Retryable r (g.ended b (.failed err false))) := by
  have hf := h.failed_attempt hb hfresh err
  exact ⟨hf, fun hsafe => ⟨hf, List.forall_mem_cons.mpr ⟨⟨err, rfl, hsafe⟩, h.replayable⟩⟩⟩

theorem trail_attemptLoop (hb : b ∈ g.visits) {Q : Outcome Attempted → Trail → Prop}
    (hret : ∀ res g', g'.visits = g.visits → Resumable r res g' → Q (.returned res) g')
    (hpanic : ∀ g', Q .panicked g') (rounds attempt : ℕ) (last : Attempted)
    (hlast : Resumable r { last with written := false } g) (ho : Orderly r g)
    (hrounds : isIdempotent r = false → rounds ≤ 1)
    (hgo : 0 < rounds → Retryable r g ∧ (isIdempotent r = false → ∀ t ∈ g.attempts, t.backend ≠ b)) :
    Safe R (trail r) Q (attemptLoop p b rounds attempt last) g := by
  induction rounds generalizing g attempt last with
  | zero => exact ⟨ho, hret _ g rfl hlast⟩
  | succ rounds ih =>
    obtain ⟨h, hfresh⟩ := hgo (Nat.succ_pos _)
    refine safe_bind.mpr
      (trail_untracked (untracked_of_quiet (quiet_beforeRetry p attempt _)) ho fun go => ?_)
    cases go with
    | false => exact ⟨ho, hret _ g rfl hlast⟩
    | true =>
      refine safe_bind.mpr (trail_doRequest h hb hfresh (fun res => ?_) fun _ => hpanic _)
      have hended : ∀ f, Orderly r (g.ended b f) := fun f => h.attempt hb hfresh (some f)
      obtain ⟨err, cls, written, retryAfter⟩ := res
      cases err with
      | none => exact ⟨hended _, hret _ (g.ended b _) rfl (hended _)⟩
      | some err =>
        refine trail_op (fun _ => trivial) (hended _) fun _ _ => ?_
        cases written with
        | true => exact ⟨hended _, hret _ (g.ended b _) rfl (hended _)⟩
        | false =>
          have hres := h.resumable hb hfresh err
          change Safe R (trail r) Q (if (!p.retryOn cls) = true then _ else _) _
          split_ifs
          · exact ⟨hended _, hret _ (g.ended b _) rfl hres⟩
          · refine ih (g := g.ended b (.failed err false)) hb hret _ _ hres
              (hended _) (fun hi => ?_) fun hpos => ?_
            · have := hrounds hi
              omega
            · have hi : isIdempotent r = true := by
                by_contra hi
                have := hrounds (Bool.eq_false_iff.mpr hi)
                omega
              exact ⟨hres.2 (.inl hi), fun hi' => absurd hi (by simp [hi'])⟩

theorem trail_attemptBackend (h : Retryable r g) (hb : b ∈ g.visits)
    (hfresh : ∀ t ∈ g.attempts, t.backend ≠ b) {Q : Outcome Attempted → Trail → Prop}
    (hret : ∀ res g', g'.visits = g.visits → Resumable r res g' → Q (.returned res) g')
    (hpanic : ∀ g', Q .panicked g') : Safe R (trail r) Q (attemptBackend p r b) g := by
  have hrelease : Within Untracked (decrConn b) := within_perform fun _ => trivial
  refine safe_deferring.mpr (trail_op (fun _ => trivial) h.toOrderly fun _ _ => ?_)
  -- the reservation is released in the trail that the attempts left
  have hloop : Safe R (trail r) (fun out g' => Q out g') (attemptLoop p b
      ((if isIdempotent r then p.retryConfig.maxAttempts else 0) + 1).toNat 0
      { err := none, cls := .empty, written := false }) g := by
    refine trail_attemptLoop hb hret hpanic _ 0 _ h.toOrderly h.toOrderly (fun hi => ?_)
      fun _ => ⟨h, fun _ => hfresh⟩
    simp [hi]
  refine hloop.mono fun out g' ho hq => ?_
  cases out with
  | returned res => exact trail_untracked hrelease ho fun _ => ⟨ho, hq⟩
  | panicked => exact trail_untracked hrelease ho fun _ => ⟨ho, hq⟩

theorem trail_visit (h : Retryable r g) (hb : b ∉ g.visits) (lastErr : Option UpstreamError)
    (blocked : Bool) {Q : Outcome Verdict → Trail → Prop}
    (hret : ∀ v g', g'.visits = b :: g.visits → v.Fits r g' → Q (.returned v) g')
    (hpanic : ∀ g', Q .panicked g') : Safe R (trail r) Q (visit p r b lastErr blocked) g := by
  refine safe_perform_bind.mpr ⟨h.toOrderly, fun _ _ => ?_⟩
  have h' := h.visit hb
  refine safe_bind.mpr (trail_untracked (untracked_available p b) h'.toOrderly fun ok => ?_)
  cases ok with
  | false =>
    refine safe_bind.mpr
      (trail_untracked (untracked_of_quiet (quiet_atCapacity b)) h'.toOrderly fun full => ?_)
    exact trail_op (fun _ => trivial) h'.toOrderly fun _ _ => ⟨h'.toOrderly, hret _ _ rfl h'⟩
  | true =>
    have hfresh : ∀ t ∈ g.attempts, t.backend ≠ b := fun t ht he => hb (he ▸ h.visited t ht)
    refine safe_bind.mpr
      (trail_attemptBackend h' (List.mem_cons_self ..) hfresh (fun res g' hv hres => ?_) hpanic)
    obtain ⟨err, cls, written, retryAfter⟩ := res
    have ho : Orderly r g' := by
      cases err with
      | none => exact hres
      | some err => cases written with
        | true => exact hres
        | false => exact hres.1.toOrderly
    refine trail_op (fun _ => trivial) ho fun _ _ => ?_
    refine safe_bind.mpr (trail_untracked (untracked_recordCircuit p b _) ho fun _ => ?_)
    cases err with
    | none => exact ⟨ho, hret .done g' hv ho⟩
    | some err =>
      cases written with
      | true =>
        exact safe_bind.mpr (trail_untracked (untracked_of_quiet (quiet_countError r)) ho fun _ =>
          ⟨ho, hret .done g' hv ho⟩)
      | false =>
        change Safe R (trail r) Q (if (!isIdempotent r && !isConnectError err) = true then _ else _) g'
        split_ifs with hstop
        · exact ⟨ho, hret (.stop (some err)) g' hv hres.1⟩
        · have hsafe : isIdempotent r = true ∨ isConnectError err = true := by
            cases hi : isIdempotent r <;> simp_all
          exact ⟨ho, hret (.next (some err) blocked) g' hv (hres.2 hsafe)⟩

theorem trail_httpError (h : Unanswered r g) {code : ℤ}
    (hc : code = badGateway ∨ code = serviceUnavailable) (msg : String) :
    Safe R (trail r) (fun _ _ => True) (httpError code msg) g :=
  safe_perform.mpr ⟨h.toOrderly, fun _ _ => ⟨h.generate hc, trivial⟩⟩

theorem trail_giveUp (h : Unanswered r g) (lastErr : Option UpstreamError) (blocked : Bool) :
    Safe R (trail r) (fun _ _ => True) (giveUp r lastErr blocked) g := by
  refine safe_bind.mpr
    (trail_untracked (untracked_of_quiet (quiet_countError r)) h.toOrderly fun _ => ?_)
  dsimp only [Then]
  split_ifs
  · exact trail_httpError h (.inl rfl) _
  · exact trail_op (fun _ => trivial) h.toOrderly fun _ _ => trail_httpError h (.inr rfl) _
  · exact trail_httpError h (.inr rfl) _

theorem trail_reserveUntried (ho : Orderly r g) (tried healthy : List Backend)
    {Q : Outcome (Option Backend) → Trail → Prop} (hnone : Q (.returned none) g)
    (hsome : ∀ b ∈ healthy, b ∉ tried → Q (.returned (some b)) g) :
    Safe R (trail r) Q (reserveUntried tried healthy) g := by
  induction healthy with
  | nil => exact ⟨ho, hnone⟩
  | cons b rest ih =>
    have hrest := ih fun b' hb' => hsome b' (List.mem_cons_of_mem _ hb')
    unfold reserveUntried
    split_ifs with hb
    · exact hrest
    · refine safe_bind.mpr (trail_untracked (untracked_of_quiet (quiet_isFull b)) ho fun full => ?_)
      cases full with
      | true => exact hrest
      | false =>
        exact trail_op (fun _ => trivial) ho fun _ _ => ⟨ho, hsome b (List.mem_cons_self ..) hb⟩

theorem trail_failover {group : List Backend} (primary : Backend)
    (hR : ∀ healthy : List Backend, R (.env .getHealthy healthy) → healthy ⊆ group) (fuel : ℕ)
    (lastErr : Option UpstreamError) (blocked : Bool) (h : Retryable r g) (hb : b ∉ g.visits)
    (hsub : b :: g.visits ⊆ primary :: group) (hfuel : group.length + 1 ≤ g.visits.length + fuel) :
    Safe R (trail r) (fun _ _ => True) (failover p r fuel b g.visits lastErr blocked) g := by
  induction fuel generalizing g b lastErr blocked with
  | zero =>
    have hlen := (List.subperm_of_subset (List.nodup_cons.mpr ⟨hb, h.visits⟩) hsub).length_le
    simp only [List.length_cons] at hlen
    omega
  | succ fuel ih =>
    refine safe_bind.mpr (trail_visit h hb lastErr blocked (fun v g' hv hfits => ?_) fun _ => trivial)
    rw [← hv] at hsub
    cases v with
    | done => exact ⟨hfits, trivial⟩
    | stop lastErr => exact trail_giveUp hfits lastErr blocked
    | next lastErr blocked =>
      have hnext : Retryable r g' := hfits
      refine safe_bind.mpr (trail_op (fun _ => trivial) hnext.toOrderly fun healthy hh => ?_)
      refine trail_reserveUntried hnext.toOrderly _ _
        (trail_giveUp hnext.toUnanswered lastErr blocked) ?_
      intro b' hb' hnew
      rw [← hv] at hnew
      have hsub' : b' :: g'.visits ⊆ primary :: group :=
        List.cons_subset.mpr ⟨List.mem_cons_of_mem _ (hR healthy hh hb'), hsub⟩
      have hfuel' : group.length + 1 ≤ g'.visits.length + fuel := by
        rw [hv, List.length_cons]
        omega
      dsimp only [Then]
      rw [← hv]
      exact ih lastErr blocked hnext hnew hsub' hfuel'

end Sequential

section Hedged
variable {p : Settings} {R : Happening → Prop} {r : Request} {g : Trail}

theorem trail_finishHedge (h : Unanswered r g) (hv : g.visits = []) (primary : Backend)
    (winner : Option HedgeResult) :
    Safe R (trail r) (fun _ _ => True) (finishHedge primary winner) g := by
  cases winner with
  | none => exact trail_op (fun _ => trivial) h.toOrderly fun _ _ => trail_httpError h (.inl rfl) _
  | some hr =>
    have hcopy : Safe R (trail r) (fun _ _ => True) (copyRecorded hr.recorder) g :=
      safe_perform.mpr ⟨h.toOrderly, fun _ _ => ⟨h.copy hv _, trivial⟩⟩
    dsimp only [finishHedge]
    split
    · exact trail_op (fun _ => trivial) h.toOrderly fun _ _ => hcopy
    · exact hcopy

theorem trail_hedge (h : Unanswered r g) (hv : g.visits = []) (primary : Backend)
    (extras : List Backend) :
    Safe R (trail r) (fun _ _ => True) (hedge primary extras) g := by
  have ho := h.toOrderly
  refine safe_bind.mpr (trail_untracked (untracked_launch primary) ho fun _ => ?_)
  refine safe_bind.mpr (trail_untracked (untracked_collect extras) ho fun race => ?_)
  refine safe_bind.mpr (trail_untracked (untracked_drain _ _) ho fun winner => ?_)
  dsimp only [Then]
  split
  · exact trail_finishHedge h hv primary winner
  · refine trail_op (fun _ => trivial) ho fun _ _ => ?_
    exact safe_bind.mpr (trail_untracked (untracked_releaseAll extras) ho fun _ =>
      trail_finishHedge h hv primary winner)

theorem trail_proxyRequestHedged (h : Unanswered r g) (hv : g.visits = []) (primary : Backend)
    {Q : Outcome Bool → Trail → Prop} (hyes : ∀ g', Orderly r g' → Q (.returned true) g')
    (hno : Q (.returned false) g) (hpanic : ∀ g', Q .panicked g') :
    Safe R (trail r) Q (proxyRequestHedged p primary) g := by
  have ho := h.toOrderly
  refine safe_bind.mpr (trail_untracked (untracked_available p primary) ho fun ok => ?_)
  cases ok with
  | false => exact ⟨ho, hno⟩
  | true =>
    refine safe_bind.mpr (trail_op (fun _ => trivial) ho fun healthy _ => ?_)
    refine trail_untracked (untracked_reserveHedges p primary _ [] healthy) ho fun extras => ?_
    dsimp only [Then]
    split
    · exact trail_op (fun _ => trivial) ho fun _ _ => ⟨ho, hno⟩
    · refine safe_bind.mpr ((trail_hedge h hv primary extras).mono fun out g' ho' _ => ?_)
      cases out with
      | returned _ => exact ⟨ho', hyes g' ho'⟩
      | panicked => exact hpanic g'

theorem trail_proxyRequest {group : List Backend} (primary : Backend) :
    Safe (Grouped group) (trail r) (fun _ _ => True) (proxyRequest p group r primary) {} := by
  have hseq : Safe (Grouped group) (trail r) (fun _ _ => True) (sequential p group r primary) {} :=
    trail_failover (g := {}) primary (fun _ h => h) _ none false retryable_start (by simp)
      (by simp) (by simp)
  unfold proxyRequest
  split_ifs
  · exact safe_bind.mpr (trail_proxyRequestHedged retryable_start.toUnanswered rfl primary
      (fun g' ho => ⟨ho, trivial⟩) hseq fun _ => trivial)
  · exact hseq

end Hedged

def trailOf (s : Handlers) : Trail := (localLog none s.log).foldl Trail.upd {}

section Runs
variable {p : Settings} {group : List Backend} {r : Request} {primary : Backend} {s : Handlers}

/-- The loop visits a backend at most once, nothing is sent again after something was written, a
request that is not idempotent is sent again only after a connection error, and at most one
response is written. A request that launches no hedge attempt comes to an end. -/
theorem failover_orderly (h : Reaches p group r primary s) :
    Orderly r (trailOf s) ∧
      Acc (After (hedgeAttempt p)) { main := proxyRequest p group r primary } ∧
      (Stuck (hedgeAttempt p) s → s.spawned = [] → Ended s.main) := by
  obtain ⟨⟨ls, hrun⟩, hg⟩ := id h
  refine ⟨?_, acc_proxyRequest p group r primary, fun hst hnone => h.handler_ended hst ?_⟩
  · exact (threadsSafe_run safe_hedgeAttempt (trail_proxyRequest primary) hrun hg).main.inv
  · rw [Bool.eq_false_iff]
    intro hc
    obtain ⟨i, b, hi⟩ := crashed_run hrun hc
    simp [hnone] at hi

end Runs

/-- A POST whose primary refuses the connection is sent to the next backend. -/
theorem failover_orderly_refused :
    let p : Settings := { retryConfig := { maxAttempts := 2 } }
    let a : Backend := { addr := 1 }
    let b : Backend := { addr := 2 }
    let r : Request := { method := "POST" }
    ∃ s, Reaches p [a, b] r a s ∧ Ended s.main ∧ (trailOf s).visits = [b, a] ∧
      Orderly r (trailOf s) := by
  intro p a b r
  let ls : List (Label Op Ans) :=
    [.main (.answer (.note (.visit a)) ()), .main (.answer (.count .retryReqs) ()),
      .main (.answer (.recordBackendRequest a) ()), .main (.answer (.proxyFor a) none),
      .main (.answer (.serveHTTP .client a) (.served (some { dial := true }) false 0 0)),
      .main (.answer (.count (.backendLatency a)) ()), .main (.answer (.count (.backendError a)) ()),
      .main (.answer (.decrConn a) ()), .main (.answer (.observeOutcome a false) ()),
      .main (.answer .getHealthy [a, b]), .main (.answer (.incrConn b) ()),
      .main (.answer (.note (.visit b)) ()), .main (.answer (.count .retryReqs) ()),
      .main (.answer (.recordBackendRequest b) ()), .main (.answer (.proxyFor b) none),
      .main (.answer (.serveHTTP .client b) (.served none true 200 0)),
      .main (.answer (.count (.backendLatency b)) ()), .main (.answer (.observeLatency b) ()),
      .main (.answer (.decrConn b) ()), .main (.answer (.observeOutcome b true) ())]
  have h : ∃ s ∈ exec (step (hedgeAttempt p)) { main := proxyRequest p [a, b] r a } ls,
      (∀ x ∈ s.log, Grouped [a, b] x.2) ∧ Ended s.main ∧ (trailOf s).visits = [b, a] := by
        decide +kernel
  obtain ⟨s, hs, hg, he, hv⟩ := h
  exact ⟨s, ⟨⟨ls, hs⟩, hg⟩, he, hv, (failover_orderly ⟨⟨ls, hs⟩, hg⟩).1⟩

end ReverseProxyLb.Proxy
