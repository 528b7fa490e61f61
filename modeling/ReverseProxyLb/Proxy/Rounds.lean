import ReverseProxyLb.Lib.Ends
import ReverseProxyLb.Proxy.Specs

/-! A round of the failover loop is an attempt on a backend not tried before, with its
reports. Ghost state that every round keeps in order is in order throughout the request. -/
namespace ReverseProxyLb.Proxy
open Lib

def Aside : Happening → Prop
  | .env .getHealthy _ | .env (.getActiveConns _) _ | .env (.incrConn _) _ | .env (.decrConn _) _
  | .env (.allow _) _ | .env (.note _) _ | .env (.httpError _ _) _ | .env (.writeResponse _ _) _ =>
    True
  | .env (.count c) _ => c.aside
  | .fork _ | .recv _ | .timeout => True
  | _ => False

def report (p : Settings) (b : Backend) (res : Attempted) : Act Unit := do
  observeOutcome b res.err.isNone
  recordCircuit p b res.cls

/-- A property of ghost state between the rounds, given the backends tried so far. -/
structure Rounds (p : Settings) (r : Request) {G : Type}
    (D : Discipline Op Ans Backend HedgeResult G) where
  between : List Backend → G → Prop
  inv : ∀ {tried g}, between tried g → D.inv g
  aside : ∀ {tried g e}, between tried g → Aside e → D.upd g e = g
  skip : ∀ {b tried g}, between tried g → between (b :: tried) g
  round : ∀ {b tried g}, b ∉ tried → between tried g →
    Ends D (fun res g' => Ends D (fun _ => between (b :: tried)) (report p b res) g')
      (attemptBackend p r b) g

namespace Rounds
variable {p : Settings} {r : Request} {G : Type} {D : Discipline Op Ans Backend HedgeResult G}
  (A : Rounds p r D)
  {b : Backend} {tried : List Backend} {g : G}

theorem confined {α : Type} {prog : Act α} {P : α → Prop} {Q : α → G → Prop} (h : A.between tried g)
    (hprog : Confined (fun _ => True) Aside P prog) (hq : ∀ a, P a → Q a g) : Ends D Q prog g :=
  hprog.ends (fun _ he => A.aside h he) (A.inv h) hq

theorem within {α : Type} {prog : Act α} {Q : α → G → Prop} (h : A.between tried g)
    (hprog : Within Aside prog) (hq : ∀ a, Q a g) : Ends D Q prog g :=
  A.confined h (hprog.confined fun _ => id) fun a _ => hq a

theorem perform {α : Type} {o : Op} {f : Ans o → Act α} {Q : α → G → Prop} (h : A.between tried g)
    (ho : ∀ a, Aside (.env o a)) (hf : ∀ a, Ends D Q (f a) g) : Ends D Q (Prog.perform o >>= f) g :=
  ends_bind.mpr (A.within h (within_perform ho) hf)

theorem visit (h : A.between tried g) (hb : b ∉ tried) (lastErr : Option UpstreamError)
    (blocked : Bool) :
    Ends D (fun _ => A.between (b :: tried)) (Proxy.visit p r b lastErr blocked) g := by
  refine A.perform h (fun _ => trivial) fun _ => ends_bind.mpr ?_
  apply A.within h (within_available p (fun _ => trivial) fun _ => trivial)
  intro ok
  cases ok with
  | false =>
    apply ends_bind.mpr
    apply A.within h (within_atCapacity fun _ => trivial)
    intro full
    exact A.perform h (fun _ => trivial) fun _ => ⟨A.inv h, A.skip h⟩
  | true =>
    apply ends_bind.mpr
    apply (A.round hb h).mono
    intro res g' _ hreport
    refine ends_perform_bind.mpr ⟨hreport.1, fun a => ends_bind.mpr ?_⟩
    apply (hreport.2 a).mono
    intro _ g'' hinv hbetween
    cases res.err with
    | none => exact ⟨hinv, hbetween⟩
    | some err =>
      dsimp only
      split_ifs
      · apply ends_bind.mpr
        apply A.within hbetween (within_countError (fun _ hc _ => hc) r)
        intro _
        exact ⟨hinv, hbetween⟩
      · exact ⟨hinv, hbetween⟩
      · exact ⟨hinv, hbetween⟩

theorem giveUp (h : A.between tried g) (lastErr : Option UpstreamError) (blocked : Bool) :
    Ends D (fun _ g' => ∃ tried, A.between tried g') (Proxy.giveUp r lastErr blocked) g :=
  A.within h (within_giveUp (fun _ hc _ => hc) (fun _ _ _ => trivial) r lastErr blocked) fun _ =>
    ⟨tried, h⟩

theorem confined_reserveUntried (tried healthy : List Backend) :
    Confined (fun _ => True) Aside
      (fun alt => ∀ b ∈ alt, b ∉ tried) (reserveUntried tried healthy) := by
  induction healthy with
  | nil =>
    intro b hb
    cases hb
  | cons b rest ih =>
    unfold reserveUntried
    split_ifs with hb
    · exact ih
    · apply ((within_isFull fun _ => trivial : Within Aside (isFull b)).confined fun _ => id).bind
      intro full _
      split
      · exact ih
      · intro _ _
        refine ⟨trivial, ?_⟩
        intro b' hb'
        rw [← Option.some.inj hb']
        exact hb

theorem failover (fuel : ℕ) (h : A.between tried g) (hb : b ∉ tried) (lastErr : Option UpstreamError)
    (blocked : Bool) :
    Ends D (fun _ g' => ∃ tried, A.between tried g') (Proxy.failover p r fuel b tried lastErr blocked)
      g := by
  induction fuel generalizing b tried g lastErr blocked with
  | zero => exact A.inv h
  | succ fuel ih =>
    apply ends_bind.mpr
    apply (A.visit h hb lastErr blocked).mono
    intro v g' hinv hbetween
    cases v with
    | done => exact ⟨hinv, _, hbetween⟩
    | stop lastErr => exact A.giveUp hbetween lastErr blocked
    | next lastErr blocked =>
      apply ends_bind.mpr
      refine A.perform hbetween (fun _ => trivial) fun healthy => ?_
      apply A.confined hbetween (confined_reserveUntried (b :: tried) healthy)
      intro alt halt
      cases alt with
      | none => exact A.giveUp hbetween lastErr blocked
      | some b' => exact ih hbetween (halt b' rfl) lastErr blocked

theorem hedge (h : A.between tried g) (primary : Backend) (extras : List Backend) :
    Ends D (fun _ => A.between tried) (Proxy.hedge primary extras) g := by
  have hfinish : ∀ winner, Ends D (fun _ => A.between tried) (finishHedge primary winner) g := by
    intro winner
    exact A.within h (within_finishHedge (fun _ hc _ => hc) (fun _ _ _ => trivial)
      (fun _ _ _ => trivial) _ _)
      fun _ => h
  have hlaunch : Within Aside (launch primary) := ⟨trivial, trivial⟩
  apply ends_bind.mpr
  apply A.within h hlaunch
  intro _
  apply ends_bind.mpr
  apply A.confined h
    (confined_collect (fun _ => rfl) (fun _ _ => trivial) (fun _ => trivial) trivial _ _)
  intro race _
  apply ends_bind.mpr
  apply A.confined h (confined_drain (fun _ => trivial) _ _)
  intro winner _
  dsimp only
  split
  · exact hfinish winner
  · refine A.perform h (fun _ => trivial) fun _ => ends_bind.mpr ?_
    exact A.within h (within_releaseAll fun _ _ _ => trivial) fun _ => hfinish winner

theorem proxyRequestHedged (h : A.between tried g) (primary : Backend) :
    Ends D (fun _ => A.between tried) (Proxy.proxyRequestHedged p primary) g := by
  apply ends_bind.mpr
  apply A.within h (within_available p (fun _ => trivial) fun _ => trivial)
  intro ok
  split
  · apply ends_bind.mpr
    refine A.perform h (fun _ => trivial) fun healthy => ?_
    apply A.within h (within_reserveHedges p
      (fun _ _ => trivial) (fun _ _ => trivial) (fun _ _ => trivial) _ _ _ _)
    intro extras
    split
    · exact A.perform h (fun _ => trivial) fun _ => ⟨A.inv h, h⟩
    · apply ends_bind.mpr
      apply (A.hedge h primary extras).mono
      intro _ g' hinv h'
      exact ⟨hinv, h'⟩
  · exact ⟨A.inv h, h⟩

theorem proxyRequest (h : A.between [] g) (group : List Backend) (primary : Backend) :
    Ends D (fun _ g' => ∃ tried, A.between tried g') (Proxy.proxyRequest p group r primary) g := by
  have hseq : ∀ {g}, A.between [] g →
      Ends D (fun _ g' => ∃ tried, A.between tried g') (sequential p group r primary) g :=
    fun h => A.failover _ h (List.not_mem_nil) none false
  unfold Proxy.proxyRequest
  split
  · apply ends_bind.mpr
    apply (A.proxyRequestHedged h primary).mono
    intro handled g' hinv h'
    split
    · exact ⟨hinv, [], h'⟩
    · exact hseq h'
  · exact hseq h

end Rounds
end ReverseProxyLb.Proxy
