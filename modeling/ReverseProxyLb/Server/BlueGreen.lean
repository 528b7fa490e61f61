import ReverseProxyLb.Balancer.Placement
import ReverseProxyLb.Config.Load
import ReverseProxyLb.Proxy.Assignment
import ReverseProxyLb.Server.Coexistence

/-! A blue-green deployment keeps the next version in the file with weight zero, and `Load`
makes that weight one. A request is not assigned to such a backend as long as it is not
eligible. -/
namespace ReverseProxyLb.Server
open Lib Proxy ConfigFile
open Routing (BackendEntry)

section Reload
variable {live : Discovery.Owned} {m : Members} {bc : BackendEntry} {b : Backend}

theorem applyBackend_other (hlive : ∀ url b, live.lookup url = some b → b.url = url)
    (hb : b.url ≠ bc.url) :
    (b ∈ (applyBackend live m bc).backends ↔ b ∈ m.backends) ∧
      (applyBackend live m bc).weight b = m.weight b := by
  cases hbc : live.lookup bc.url with
  | none =>
    have hne : b ≠ newBackend m.next bc.toBackendConfig := by
      rintro rfl
      exact hb rfl
    rw [applyBackend_new m hbc]
    constructor
    · simp [Members.add, hne]
    · exact Function.update_of_ne hne _ _
  | some be =>
    have hne : b ≠ be := by
      rintro rfl
      exact hb (hlive _ _ hbc)
    rcases applyBackend_live m hbc with ⟨hstep, -⟩ | hstep
    · rw [hstep]
      exact ⟨Iff.rfl, rfl⟩
    · rw [hstep, Members.updateWeight_backends]
      exact ⟨Iff.rfl, Members.updateWeight_weight_of_ne hne _⟩

theorem applyBackend_weight (hlive : ∀ b ∈ m.backends, b.url = bc.url → live.lookup bc.url = some b)
    (hb : b ∈ (applyBackend live m bc).backends) (hurl : b.url = bc.url) :
    (applyBackend live m bc).weight b = Int32.ofInt bc.weight := by
  cases hbc : live.lookup bc.url with
  | none =>
    rw [applyBackend_new m hbc] at hb ⊢
    rcases List.mem_append.mp hb with hb | hb
    · rw [hlive b hb hurl] at hbc
      cases hbc
    · rw [List.mem_singleton.mp hb]
      exact Function.update_self ..
  | some be =>
    rcases applyBackend_live m hbc with ⟨hstep, hsame⟩ | hstep
    · rw [hstep] at hb ⊢
      obtain rfl : be = b := Option.some.inj (hbc.symm.trans (hlive b hb hurl))
      rw [← hsame]
      exact (Int32.ofInt_toInt _).symm
    · rw [hstep, Members.updateWeight_backends] at hb
      obtain rfl : be = b := Option.some.inj (hbc.symm.trans (hlive b hb hurl))
      rw [hstep]
      exact Members.updateWeight_weight_self hb _

theorem foldl_applyBackend_weight (hurls : ∀ url b, live.lookup url = some b → b.url = url)
    {backends : List BackendEntry} (hnodup : (urls backends).Nodup)
    (hlive : ∀ bc ∈ backends, ∀ b ∈ m.backends, b.url = bc.url → live.lookup bc.url = some b) :
    (∀ b, b.url ∉ urls backends →
      (b ∈ (backends.foldl (applyBackend live) m).backends ↔ b ∈ m.backends) ∧
      (backends.foldl (applyBackend live) m).weight b = m.weight b) ∧
    ∀ bc ∈ backends, ∀ b ∈ (backends.foldl (applyBackend live) m).backends, b.url = bc.url →
      (backends.foldl (applyBackend live) m).weight b = Int32.ofInt bc.weight := by
  induction backends generalizing m with
  | nil => exact ⟨fun b _ => ⟨Iff.rfl, rfl⟩, fun bc hbc => nomatch hbc⟩
  | cons a backends ih =>
    obtain ⟨hfirst, hnodup⟩ := List.nodup_cons.mp hnodup
    have hrest : ∀ bc ∈ backends, ∀ b ∈ (applyBackend live m a).backends, b.url = bc.url →
        live.lookup bc.url = some b := by
      intro bc hbc b hb hurl
      have hne : b.url ≠ a.url := by
        rw [hurl]
        intro h
        exact hfirst (List.mem_map.mpr ⟨bc, hbc, h⟩)
      exact hlive bc (List.mem_cons_of_mem _ hbc) b ((applyBackend_other hurls hne).1.mp hb) hurl
    obtain ⟨hother, hweights⟩ := ih hnodup hrest
    rw [List.foldl_cons]
    constructor
    · intro b hb
      obtain ⟨hba, hb⟩ := not_or.mp (mt List.mem_cons.mpr hb)
      obtain ⟨hmem, hweight⟩ := applyBackend_other (m := m) hurls hba
      obtain ⟨hmem', hweight'⟩ := hother b hb
      exact ⟨hmem'.trans hmem, hweight'.trans hweight⟩
    · intro bc hbc b hb hurl
      rcases List.mem_cons.mp hbc with rfl | hbc
      · obtain ⟨hmem, hweight⟩ := hother b (hurl ▸ hfirst)
        rw [hweight]
        exact applyBackend_weight (hlive bc (List.mem_cons_self ..)) (hmem.mp hb) hurl
      · exact hweights bc hbc b hb hurl

theorem mem_applyBackend (hb : b ∈ m.backends) : b ∈ (applyBackend live m bc).backends := by
  cases hbc : live.lookup bc.url with
  | none =>
    rw [applyBackend_new m hbc]
    exact List.mem_append_left _ hb
  | some be =>
    rcases applyBackend_live m hbc with ⟨hstep, -⟩ | hstep
    · rwa [hstep]
    · rwa [hstep, Members.updateWeight_backends]

theorem mem_foldl_applyBackend (backends : List BackendEntry) (hb : b ∈ m.backends) :
    b ∈ (backends.foldl (applyBackend live) m).backends := by
  induction backends generalizing m with
  | nil => exact hb
  | cons bc backends ih => exact ih (mem_applyBackend hb)

theorem foldl_removeUndesired_mem {entries : List (Sigma fun _ : String => Backend)}
    (desired : List String) (hentries : ∀ e ∈ entries, e.2.url = e.1) :
    (entries.foldl (removeUndesired desired) m).weight = m.weight ∧
    (∀ b ∈ (entries.foldl (removeUndesired desired) m).backends, b ∈ m.backends) ∧
    ∀ b ∈ m.backends, b.url ∈ desired → b ∈ (entries.foldl (removeUndesired desired) m).backends := by
  obtain ⟨hbackends, hweight, -⟩ := foldl_removeUndesired_diff desired entries m
  rw [hbackends]
  refine ⟨hweight, fun b hb => List.diff_subset _ _ hb, fun b hb hurl =>
    List.mem_diff_of_mem hb fun hgone => ?_⟩
  obtain ⟨e, he, rfl⟩ := List.mem_map.mp hgone
  obtain ⟨hmem, hnot⟩ := List.mem_filter.mp he
  rw [hentries e hmem] at hurl
  exact of_decide_eq_true hnot hurl

theorem applyBackendChanges_weight {backends : List BackendEntry} (hnodup : (urls backends).Nodup)
    (hdistinct : ((applyBackendChanges m backends).backends.map Backend.url).Nodup)
    (hbc : bc ∈ backends) (hb : b ∈ (applyBackendChanges m backends).backends)
      (hurl : b.url = bc.url) :
    (applyBackendChanges m backends).weight b = Int32.ofInt bc.weight := by
  have hinj := List.inj_on_of_nodup_map hdistinct
  obtain ⟨hweight, hsub, hkeep⟩ :=
    foldl_removeUndesired_mem (m := backends.foldl (applyBackend (existing m)) m)
    (urls backends) fun e he => (existing_entries m e he).2
  have hstays : ∀ x ∈ m.backends, x.url ∈ urls backends →
      x ∈ (applyBackendChanges m backends).backends := by
    intro x hx hxurl
    exact hkeep x (mem_foldl_applyBackend backends hx) hxurl
  have hlive : ∀ bc ∈ backends, ∀ x ∈ m.backends, x.url = bc.url →
      (existing m).lookup bc.url = some x := by
    intro bc hbc x hx hxurl
    have hlisted : x.url ∈ urls backends := List.mem_map.mpr ⟨bc, hbc, hxurl.symm⟩
    cases hlookup : (existing m).lookup bc.url with
    | none => exact absurd hxurl (existing_none.mp hlookup x hx)
    | some y =>
      obtain ⟨hy, hyurl⟩ := existing_some hlookup
      congr 1
      apply hinj (hstays y hy (by rwa [hyurl, ← hxurl])) (hstays x hx hlisted)
      rw [hyurl, hxurl]
  obtain ⟨-, hweights⟩ := foldl_applyBackend_weight (fun url b h => (existing_some h).2) hnodup hlive
  change (((existing m).entries.foldl (removeUndesired (urls backends)) _).weight b) = _
  rw [hweight]
  exact hweights bc hbc b (hsub b hb) hurl

end Reload

/-- The server right after it has started with a configuration, or loaded it again. -/
inductive InForce (cfg : Loaded) : Live → Prop
  | start (c : LoadedConfig) (h : c.backends = cfg.backends) : InForce cfg (newServer c)
  | reload (s : Live) (c : LoadedConfig) (h : c.backends = cfg.backends) :
    InForce cfg (s.reloadConfig (some c))

theorem applyBackendChanges_empty (backends : List BackendEntry) :
    applyBackendChanges {} backends = Members.build (backends.map BackendEntry.toBackendConfig) := by
  rw [Members.build, List.foldl_map]
  rfl

theorem InForce.members {cfg : Loaded} {live : Live} (h : InForce cfg live) :
    ∃ m, live.balancer = applyBackendChanges m cfg.backends := by
  cases h with
  | start c h =>
    refine ⟨{}, ?_⟩
    rw [applyBackendChanges_empty, ← h]
    rfl
  | reload s c h =>
    refine ⟨s.balancer, ?_⟩
    rw [← h]
    rfl

def DeclaresZero (file : File) (b : Backend) : Prop :=
  ∃ fb ∈ file.backends, fb.url = b.url ∧ fb.weight = some 0

section Weight
variable {parse : String → Option (String × String)} {file : File} {cfg : Loaded} {live : Live}
  {b : Backend}
  (hload : load parse file = .ok cfg) (hlive : InForce cfg live)
    (hurls : (file.backends.map FileBackend.url).Nodup)
  (hdistinct : (live.balancer.backends.map Backend.url).Nodup)
include hload hlive hurls hdistinct

theorem DeclaresZero.weight (h : DeclaresZero file b) (hb : b ∈ live.balancer.backends) :
    live.balancer.weight b = 1 := by
  obtain ⟨m, hm⟩ := hlive.members
  obtain ⟨rfl, -⟩ := load_ok hload
  obtain ⟨fb, hfb, hurl, hzero⟩ := h
  rw [hm] at hb hdistinct ⊢
  have hlisted : urls (applyDefaults file.decode).backends = file.backends.map FileBackend.url := by
    simp only [urls, applyDefaults, File.decode, List.map_map]
    rfl
  have hmem : applyBackendDefaults fb.decode ∈ (applyDefaults file.decode).backends :=
    List.mem_map_of_mem (List.mem_map_of_mem hfb)
  have hone : (applyBackendDefaults fb.decode).weight = 1 := by
    apply weight_applyDefaults
    rw [hzero]
    rfl
  rw [applyBackendChanges_weight (hlisted ▸ hurls) hdistinct hmem hb hurl.symm, hone]
  rfl

end Weight

def Assignable (F : Front) (d : Deployment) (w : World) (b : Backend) : Prop :=
  b ∈ d.eligible w ∨ F.sticky.enabled = true ∧ b ∈ w.getHealthy

/-- `selectBackend` gives the backend to the request. -/
def Assigned (F : Front) (r : Incoming) (d : Deployment) (w : World) (b : Backend) : Prop :=
  ∃ w', (F.selectBackend r).solo (answerFrom d.balancer) w = some (.returned (.ok (some b)), w')

section Assigned
variable {F : Front} {r : Incoming} {g : Group} {d : Deployment} {w : World} {b : Backend}
  (hr : r.balancerCtx = some g) (hg : g.keyed = d.balancer.nextForKey.isSome)
include hr hg

theorem assigned_unpinned (hpinned : F.pinned r w = none) :
    Assigned F r d w b ↔ (d.balancer.select (F.selectionKey r) w).1 = .backend b := by
  unfold Assigned
  rw [Front.selectBackend_solo hr hg, hpinned]
  dsimp only
  constructor
  · rintro ⟨w', h⟩
    exact Picked.outcome_injective (congrArg Prod.fst (Option.some.inj h))
  · intro h
    refine ⟨(d.balancer.select (F.selectionKey r) w).2, ?_⟩
    rw [outcomeOf, h]
    rfl

theorem assignable_of_assigned
    (hbase : d.nesting.algorithm.nextForKey = none) (h : Assigned F r d w b) :
    Assignable F d w b := by
  cases hpinned : F.pinned r w with
  | none =>
    left
    exact Deployment.select_mem hbase ((assigned_unpinned hr hg hpinned).mp h)
  | some b' =>
    obtain ⟨w', h⟩ := h
    rw [Front.selectBackend_solo hr hg, hpinned] at h
    cases h
    right
    unfold Front.pinned at hpinned
    split_ifs at hpinned with haffinity
    refine ⟨?_, List.mem_of_find?_eq_some hpinned⟩
    by_contra hsticky
    exact haffinity (if_neg hsticky)

end Assigned

theorem pinned_of_disabled
    {F : Front} (hsticky : F.sticky.enabled = false) (r : Incoming) (w : World) :
    F.pinned r w = none := by
  apply if_pos
  unfold Front.affinity
  rw [hsticky]
  rfl

theorem setupBalancer_algorithm (setup : Config) :
    (setupBalancer setup).1.nesting.algorithm = baseAlgorithm setup.loadBalancer := by
  unfold setupBalancer setupStack Deployment.nesting
  dsimp only
  cases setup.loadBalancer.outlierDetection <;> split_ifs <;> rfl

/-- The balancer has the members and the weights that the configuration gave it. -/
structure AsLoaded (live : Live) (w : World) : Prop where
  backends : w.backends = live.balancer.backends
  weight : ∀ b ∈ w.backends, w.weight b = live.balancer.weight b
  /-- The weights do not overflow. -/
  light : (w.backends.map fun b => (w.getWeight b).toNat).sum < 2 ^ 32

theorem AsLoaded.healthy_light {live : Live} {w : World} (h : AsLoaded live w) (d : Deployment) :
    ((d.reinstated w).getHealthy.map fun b => (w.getWeight b).toNat).sum < 2 ^ 32 := by
  have hsub : (d.reinstated w).getHealthy.Sublist w.backends := by
    rw [← d.reinstated_backends w]
    exact List.filter_sublist
  apply lt_of_le_of_lt _ h.light
  apply (hsub.map _).sum_le_sum
  intro n _
  exact n.zero_le

/-- No request is assigned to a backend declared with weight zero if none can be given to such a
backend. With the members and weights of the file, distinct URLs and no sticky sessions, exactly
then. -/
theorem zero_weight_assigned {parse : String → Option (String × String)} {file : File} {cfg : Loaded}
    (hload : load parse file = .ok cfg) {live : Live} (hlive : InForce cfg live) {setup : Config}
    (halg : setup.loadBalancer.algorithm = "weighted") {d : Deployment}
    (hd : d = (setupBalancer setup).1) {F : Front} {r : Incoming} {g : Group}
    (hr : r.balancerCtx = some g) (hg : g.keyed = d.balancer.nextForKey.isSome) (w : World) :
    ((∀ b, Assignable F d w b → ¬ DeclaresZero file b) → ∀ b, Assigned F r d w b →
      ¬ DeclaresZero file b) ∧
    ((file.backends.map FileBackend.url).Nodup → (live.balancer.backends.map Backend.url).Nodup →
      AsLoaded live w → F.sticky.enabled = false →
      ((∀ current conns b, Assigned F r d (w.turned current conns) b → ¬ DeclaresZero file b) ↔
        ∀ b ∈ d.eligible w, ¬ DeclaresZero file b)) := by
  have hweighted : d.nesting.algorithm = .weightedRoundRobin := by
    rw [hd, setupBalancer_algorithm, baseAlgorithm, halg]
    rfl
  have hbase : d.nesting.algorithm.nextForKey = none := by
    rw [hweighted]
    rfl
  constructor
  · intro hnone b hb
    exact hnone b (assignable_of_assigned hr hg hbase hb)
  · intro hurls hdistinct hloaded hsticky
    constructor
    · intro hnone b hb hzero
      have hmem : b ∈ w.backends := by
        rw [← d.reinstated_backends w]
        exact getHealthy_subset _ ((d.stack.eligibleFrom_sublist _).subset hb)
      have hone : w.getWeight b = 1 := by
        rw [World.getWeight, hloaded.weight b hmem]
        rw [hzero.weight hload hlive hurls hdistinct (hloaded.backends ▸ hmem)]
        rfl
      obtain ⟨current, conns, hreach⟩ := Deployment.select_reaches hweighted hb (by rw [hone]; decide)
        (hloaded.healthy_light d)
      apply hnone current conns b _ hzero
      rw [assigned_unpinned hr hg (pinned_of_disabled hsticky r _)]
      exact hreach _
    · intro hnone current conns b hb
      rcases assignable_of_assigned hr hg hbase hb with hb | ⟨hpinned, -⟩
      · rw [eligible_turned] at hb
        exact hnone b hb
      · rw [hsticky] at hpinned
        cases hpinned

/-- Two versions; traffic is to go to the first one only. -/
def blueGreen : File where
  backends := [{ url := "http://blue", weight := some 1 }, { url := "http://green", weight := some 0 }]
  loadBalancer := { algorithm := "weighted" }

def blueGreenSetup : Config where
  backends := (applyDefaults blueGreen.decode).backends.map BackendEntry.toBackendConfig
  loadBalancer := (applyDefaults blueGreen.decode).loadBalancer

def blueGreenGroup : Group := { id := 0, keyed := false }

def blueGreenFront : Front := { balancer := blueGreenGroup }

def blueGreenGet : Incoming := { request := { method := "GET" }, balancerCtx := some blueGreenGroup }

def blue : Backend := { addr := 0, url := "http://blue", maxConns := 100 }

def green : Backend := { addr := 1, url := "http://green", maxConns := 100 }

theorem blueGreen_loads : load anyURL blueGreen = .ok (applyDefaults blueGreen.decode) := rfl

theorem declaresZero_green : DeclaresZero blueGreen green :=
  ⟨_, List.mem_cons_of_mem _ (List.mem_singleton_self _), rfl, rfl⟩

def blueHealthy : World := { (setupBalancer blueGreenSetup).2 with healthy := fun b => b.addr == 0 }

theorem zero_weight_assigned_down :
    (blueHealthy.backends = [blue, green] ∧ blueHealthy.getHealthy = [blue] ∧
      DeclaresZero blueGreen green) ∧
    (∀ b, Assigned blueGreenFront blueGreenGet (setupBalancer blueGreenSetup).1 blueHealthy b →
      ¬ DeclaresZero blueGreen b) ∧
    ∀ current conns b, Assigned blueGreenFront blueGreenGet (setupBalancer blueGreenSetup).1
      (blueHealthy.turned current conns) b → ¬ DeclaresZero blueGreen b := by
  have hblue : ¬ DeclaresZero blueGreen blue := by
    rintro ⟨fb, hfb, hurl, hzero⟩
    rcases List.mem_pair.mp hfb with rfl | rfl
    · cases hzero
    · exact absurd hurl (by decide)
  have heligible : ∀ b ∈ (setupBalancer blueGreenSetup).1.eligible blueHealthy,
      ¬ DeclaresZero blueGreen b := by
    intro b hb
    cases List.mem_singleton.mp hb
    exact hblue
  have hlive : InForce (applyDefaults blueGreen.decode)
      (newServer { backends := (applyDefaults blueGreen.decode).backends }) := .start _ rfl
  have halg : blueGreenSetup.loadBalancer.algorithm = "weighted" := rfl
  have hr : blueGreenGet.balancerCtx = some blueGreenGroup := rfl
  obtain ⟨hnone, hiff⟩ :=
    zero_weight_assigned (F := blueGreenFront) blueGreen_loads hlive halg rfl hr rfl blueHealthy
  refine ⟨⟨rfl, rfl, declaresZero_green⟩, hnone ?_, ?_⟩
  · rintro b (hb | ⟨hsticky, -⟩)
    · exact heligible b hb
    · cases hsticky
  · rw [hiff (by decide) (by decide) ⟨rfl, by decide, by decide⟩ rfl]
    exact heligible

/-- After the start the first request goes to blue, and the second one to green. -/
theorem green_assigned :
    load anyURL blueGreen = .ok (applyDefaults blueGreen.decode) ∧ DeclaresZero blueGreen green ∧
    (setupBalancer blueGreenSetup).2.getHealthy = [blue, green] ∧
    ∃ w, (blueGreenFront.selectBackend blueGreenGet).solo
      (answerFrom (setupBalancer blueGreenSetup).1.balancer)
        (setupBalancer blueGreenSetup).2 = some (.returned (.ok (some blue)), w) ∧
      Assigned blueGreenFront blueGreenGet (setupBalancer blueGreenSetup).1 w green := by
  exact ⟨blueGreen_loads, declaresZero_green, rfl, _, rfl, _, rfl⟩

end ReverseProxyLb.Server
