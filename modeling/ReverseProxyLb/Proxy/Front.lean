import ReverseProxyLb.Lib.Ends
import ReverseProxyLb.Proxy.Routing

/-! Which events the parts of `ServeHTTP` besides `proxyRequest` consist of. -/
namespace ReverseProxyLb.Proxy
open Lib Pool

section Parts
variable {F : Front} {r : Incoming} {E : FrontEvent → Prop}

theorem within_route (h : ∀ b, E (.env .route b)) : Within E F.route := by
  unfold Front.route
  split
  · refine (within_perform (o := FrontOp.route) h).bind fun b => ?_
    split <;> exact within_pure _
  · exact within_pure _

theorem within_balancerFor (h : ∀ b, E (.env .route b)) : Within E (F.balancerFor r) := by
  unfold Front.balancerFor
  split
  · exact within_pure _
  · exact within_route h

theorem within_canaryFor (hweight : ∀ n, E (.env .loadCanaryWeight n))
    (hroll : ∀ n, E (.env (.intn 100) n)) :
    Within E F.canaryFor := by
  unfold Front.canaryFor
  split
  · exact within_pure _
  · refine (within_perform (o := FrontOp.loadCanaryWeight) hweight).bind fun weight => ?_
    split
    · refine Within.bind ?_ fun rolled => ?_
      · refine (within_perform (o := FrontOp.intn 100) hroll).bind fun n => ?_
        exact (within_perform (o := FrontOp.loadCanaryWeight) hweight).bind fun _ => within_pure _
      · split <;> exact within_pure _
    · exact within_pure _

theorem within_carryOut (hroute : ∀ b, E (.env .route b))
    (hhealthy : ∀ g bs, E (.env (.getHealthy g) bs))
    (houtcome : ∀ g b ok a, E (.env (.observeOutcome g b ok) a))
    (hlatency : ∀ g b a, E (.env (.observeLatency g b) a)) (o : Op)
    (hplain : ∀ a, E (.env (.plain o) a)) : Within E (F.carryOut r o) := by
  cases o with
  | getHealthy =>
    exact (within_balancerFor hroute).bind fun b =>
      within_perform (o := FrontOp.getHealthy b) (hhealthy b)
  | observeOutcome backend ok =>
    refine (within_balancerFor hroute).bind fun b => ?_
    split
    · exact within_perform (o := FrontOp.observeOutcome b backend ok) (houtcome b backend ok)
    · exact within_pure _
  | observeLatency backend =>
    refine (within_balancerFor hroute).bind fun b => ?_
    split
    · exact within_perform (o := FrontOp.observeLatency b backend) (hlatency b backend)
    · exact within_pure _
  | _ => exact within_perform (o := FrontOp.plain _) hplain

end Parts

end ReverseProxyLb.Proxy
