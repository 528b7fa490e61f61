import ReverseProxyLb.Proxy.Conservation
import ReverseProxyLb.Proxy.Rounds

/-! A request whose only round fails, as a run that an environment can bring about. -/
namespace ReverseProxyLb.Proxy
open Lib Pool

variable {G : Type} {U : G → Happening → G} {group : List Backend} {p : Settings} {r : Request}
  {b : Backend}
  {g g₁ g₂ : G}

/-- The request's own thread can run through a program, with answers that keep to the group. -/
abbrev Played (U : G → Happening → G) (group : List Backend) {α : Type} (g : G) (prog : Act α) (g' : G)
    (a : α) :
    Prop :=
  Plays (fun g o a => some (U g (.env o a))) (fun o a => Grouped group (.env o a)) g prog g' a

theorem played_perform
    {o : Op} (a : Ans o) (hok : Grouped group (.env o a)) (hg : U g (.env o a) = g₁) :
    Played U group g (Prog.perform o) g₁ a :=
  plays_perform a hok (congrArg some hg)

section Aside
variable (hU : ∀ g e, Aside e → U g e = g)
include hU

theorem played_atCapacity (b : Backend) (g : G) : Played U group g (atCapacity b) g false := by
  unfold atCapacity
  split_ifs with hpos
  · have hfree : decide (b.maxConns < 0) = false := by simpa using hpos.le
    rw [← hfree]
    exact (played_perform (o := Op.getActiveConns b) (0 : ℤ) trivial (hU g _ trivial)).bind (.ret _ _)
  · exact .ret _ _

theorem played_available (p : Settings) (b : Backend) (g : G) :
    Played U group g (available p b) g true := by
  have hadmitted : Played U group g (admitted p b) g true := by
    unfold admitted
    split_ifs
    · exact (played_perform (o := Op.allow b) none trivial (hU g _ trivial)).bind (.ret _ _)
    · exact .ret _ _
  exact (played_atCapacity hU b g).bind hadmitted

theorem played_getHealthy (g : G) : Played U group g getHealthy g [] :=
  played_perform (o := Op.getHealthy) [] (List.nil_subset _) (hU g _ trivial)

theorem played_proxyRequestHedged (p : Settings) (primary : Backend) (g : G) :
    Played U group g (proxyRequestHedged p primary) g false := by
  apply (played_available hU p primary g).bind
  have hnone : Played U group g (reserveHedgeBackends p primary p.retryConfig.hedge.maxExtra) g [] :=
    (played_getHealthy hU g).bind (.ret _ _)
  apply hnone.bind
  exact (played_perform (o := Op.note (.fellBack primary)) () trivial (hU g _ trivial)).bind (.ret _ _)

theorem played_giveUp (r : Request) (err : UpstreamError) (blocked : Bool) (g : G) :
    Played U group g (giveUp r (some err) blocked) g () := by
  have hcount : Played U group g (countError r) g () := by
    refine (played_perform (o := Op.count .incrError) () trivial (hU g _ rfl)).bind ?_
    split_ifs
    · exact played_perform (o := Op.count .incrCanaryError) () trivial (hU g _ rfl)
    · exact .ret _ _
  exact hcount.bind (played_perform (o := Op.httpError _ _) () trivial (hU g _ trivial))

theorem Played.visit {res : Attempted} (hattempt : Played U group g (attemptBackend p r b) g₁ res)
    (hreport : Played U group g₁ (report p b res) g₂ ()) {err : UpstreamError}
    (herr : res.err = some err) (hwritten : res.written = false) :
    Played U group g (Proxy.visit p r b none false) g₂
      (if !isIdempotent r && !isConnectError err then .stop (some err)
        else .next (some err) false) := by
  refine (played_perform (o := Op.note (.visit b)) () trivial (hU g _ trivial)).bind ?_
  apply (played_available hU p b g).bind
  apply hattempt.bind
  cases hreport with
  | op a hok hg hrecord =>
    refine .op a hok hg ?_
    apply Plays.bind hrecord
    simp only [herr, hwritten, Bool.false_eq_true, if_false]
    split_ifs <;> exact .ret _ _

theorem Played.proxyRequest {res : Attempted}
    (hattempt : Played U group g (attemptBackend p r b) g₁ res)
    (hreport : Played U group g₁ (report p b res) g₂ ()) {err : UpstreamError}
    (herr : res.err = some err) (hwritten : res.written = false) :
    Played U group g (Proxy.proxyRequest p group r b) g₂ () := by
  have hseq : Played U group g (sequential p group r b) g₂ () := by
    apply (hattempt.visit hU hreport herr hwritten).bind
    split_ifs
    · exact played_giveUp hU r err false g₂
    · have hnone : Played U group g₂ (reserveAlternate [b]) g₂ none :=
        (played_getHealthy hU g₂).bind (.ret _ _)
      apply hnone.bind
      exact played_giveUp hU r err false g₂
  unfold Proxy.proxyRequest
  split_ifs
  · exact (played_proxyRequestHedged hU p b g).bind hseq
  · exact hseq

end Aside

theorem Played.reaches (h : Played U group g (Proxy.proxyRequest p group r b) g₁ ()) :
    ∃ s, Reaches p group r b s ∧ s.ghost U g = g₁ ∧ localLog none s.log = s.log.map Prod.snd := by
  let start : Handlers := { main := Proxy.proxyRequest p group r b }
  have hstart : start.ghost U g = g := rfl
  obtain ⟨ls, s, hrun, -, hghost, hlog⟩ := h.run (hedgeAttempt p) rfl rfl hstart
  have hmine : ∀ x ∈ s.log, ∃ o a, x = (none, .env o a) ∧ Grouped group (.env o a) := by
    intro x hx
    obtain hx | hx := hlog x hx
    · cases hx
    · exact hx
  refine ⟨s, ⟨⟨ls, hrun⟩, fun x hx => ?_⟩, hghost, ?_⟩
  · obtain ⟨o, a, rfl, hok⟩ := hmine x hx
    exact hok
  · unfold localLog
    rw [List.filter_eq_self.mpr]
    intro x hx
    obtain ⟨o, a, rfl, -⟩ := hmine x hx
    rfl

end ReverseProxyLb.Proxy
