import ReverseProxyLb.Cache.Middleware
import ReverseProxyLb.Lib.Eviction

/-! The names that a resource varies on are recorded by its base key. A store that displaces
the last entry of a resource leaves its hint; only then is there a hint without an entry. -/
namespace ReverseProxyLb.Cache
open Lib

namespace ResponseCache
variable {c : ResponseCache} {e d : CacheEntry}

def HintsLive (c : ResponseCache) : Prop := ∀ b ∈ c.varyHints, ∃ e ∈ c.live, e.baseKey = b

def Rehints (c : ResponseCache) (e : CacheEntry) : Prop :=
  ((c.varyHints.lookup e.baseKey).isSome ∨ e.varyNames ≠ []) ∧
    (c.varyHints.lookup e.baseKey).getD [] ≠ e.varyNames

instance  (c : ResponseCache) (e : CacheEntry) : Decidable (c.Rehints e) :=
  inferInstanceAs (Decidable (_ ∧ _))

def survivors (c : ResponseCache) (e : CacheEntry) : List CacheEntry :=
  if c.Rehints e then c.live.filter (·.baseKey ≠ e.baseKey) else c.live

def Displaces (c : ResponseCache) (e d : CacheEntry) : Prop :=
  d.key = e.key ∨ (∀ a ∈ c.survivors e, a.key ≠ e.key) ∧ (c.survivors e).length = c.maxEntries ∧
    (c.survivors e).getLast? = some d

/-- A resource with a hint that loses an entry keeps another one, unless it is the one stored. -/
def KeepsHints (c : ResponseCache) (e : CacheEntry) : Prop :=
  ∀ d ∈ c.live, d.baseKey ≠ e.baseKey → d.baseKey ∈ c.varyHints → c.Displaces e d →
    ∃ d' ∈ c.live, d'.baseKey = d.baseKey ∧ ¬ c.Displaces e d'

theorem Linked.settleVary_eq (h : c.Linked) (e : CacheEntry) :
    (c.settleVary e).live = c.survivors e ∧
      ∀ b, b ≠ e.baseKey → (c.settleVary e).varyHints.lookup b = c.varyHints.lookup b := by
  obtain ⟨-, hlive, -, hhint⟩ := h.purgeBaseLocked e.baseKey
  unfold survivors
  by_cases hchanged : c.Rehints e
  · have hsettle : c.settleVary e = if e.varyNames ≠ [] then
        { c.purgeBaseLocked e.baseKey with
          varyHints := (c.purgeBaseLocked e.baseKey).varyHints.insert e.baseKey e.varyNames }
      else
        { c.purgeBaseLocked e.baseKey with
          varyHints := (c.purgeBaseLocked e.baseKey).varyHints.erase e.baseKey } :=
      if_pos hchanged
    rw [hsettle, if_pos hchanged]
    split
    · exact ⟨hlive, fun b hb => by rw [AList.lookup_insert_ne hb, hhint]⟩
    · exact ⟨hlive, fun b hb => by rw [AList.lookup_erase_ne hb, hhint]⟩
  · have hsettle : c.settleVary e = c := if_neg hchanged
    rw [hsettle, if_neg hchanged]
    exact ⟨rfl, fun b _ => rfl⟩

theorem Linked.nodup_keys (h : c.Linked) : (c.live.map (·.key)).Nodup := by
  rw [live, List.map_map]
  apply (List.nodup_map_iff_inj_on h.distinct.of_map).mpr
  intro a ha b hb hab
  exact h.eq_of_key ha hb hab

theorem mem_survivors (hd : d ∈ c.live) (hne : d.baseKey ≠ e.baseKey) : d ∈ c.survivors e := by
  unfold survivors
  split
  · exact List.mem_filter.mpr ⟨hd, by simpa using hne⟩
  · exact hd

theorem survivors_sublist (c : ResponseCache) (e : CacheEntry) : (c.survivors e).Sublist c.live := by
  unfold survivors
  split
  · exact List.filter_sublist
  · exact List.Sublist.refl _

theorem Linked.mem_store_iff (h : c.Linked) (hh : c.Hinted) (hb : c.live.length ≤ c.maxEntries)
    (hpos : 0 < c.maxEntries) (hd : d ∈ c.live) (hne : d.baseKey ≠ e.baseKey) :
    d ∈ (c.store e).live ↔ ¬ c.Displaces e d := by
  obtain ⟨-, -, hlive, -⟩ := h.store hh hb e
  have hsub := survivors_sublist c e
  have hde : d ≠ e := fun heq => hne (by rw [heq])
  obtain ⟨n, hn⟩ : ∃ n, c.maxEntries = n + 1 := ⟨c.maxEntries - 1, by omega⟩
  have hlen : (c.survivors e).length ≤ n + 1 := hn ▸ hsub.length_le.trans hb
  have hnodup : (c.survivors e).Nodup := hsub.nodup h.nodup_keys.of_map
  rw [hlive, (h.settleVary_eq e).1, hn, List.take_succ_cons, List.mem_cons, or_iff_right hde,
    mem_take_filter_iff hnodup hlen (mem_survivors hd hne)]
  unfold Displaces
  simp only [hn, ne_eq, decide_eq_false_iff_not, not_not, decide_eq_true_eq]

theorem Linked.mem_hints_store (h : c.Linked) (hh : c.Hinted) (hb : c.live.length ≤ c.maxEntries)
    (hpos : 0 < c.maxEntries) (e : CacheEntry) :
    e ∈ (c.store e).live ∧ ∀ b, b ≠ e.baseKey → (b ∈ (c.store e).varyHints ↔ b ∈ c.varyHints) := by
  obtain ⟨-, -, hlive, -⟩ := h.store hh hb e
  obtain ⟨hl, -, -, hsub, hsame⟩ := h.settleVary hh e
  obtain ⟨-, -, -, hhint⟩ := hl.insertEntry (by rw [hsame.maxEntries]; exact hsub.length_le.trans hb) e
  constructor
  · obtain ⟨n, hn⟩ : ∃ n, c.maxEntries = n + 1 := ⟨c.maxEntries - 1, by omega⟩
    rw [hlive, hn, List.take_succ_cons]
    exact List.mem_cons_self ..
  · intro b hne
    change b ∈ ((c.settleVary e).insertEntry e).varyHints ↔ _
    rw [hhint, ← AList.lookup_isSome, (h.settleVary_eq e).2 b hne, AList.lookup_isSome]

theorem Linked.hintsLive_store_iff (h : c.Linked) (hh : c.Hinted) (hb : c.live.length ≤ c.maxEntries)
    (hpos : 0 < c.maxEntries) (hhints : c.HintsLive) (e : CacheEntry) :
    (c.store e).HintsLive ↔ c.KeepsHints e := by
  obtain ⟨hmem, hother⟩ := h.mem_hints_store hh hb hpos e
  obtain ⟨-, -, hlive, -⟩ := h.store hh hb e
  constructor
  · intro hafter d hd hne hhint hgone
    obtain ⟨d', hd', hbase⟩ := hafter d.baseKey ((hother _ hne).mpr hhint)
    have hne' : d'.baseKey ≠ e.baseKey := hbase ▸ hne
    have hbefore : d' ∈ c.live := by
      rw [hlive] at hd'
      rcases List.mem_cons.mp (List.mem_of_mem_take hd') with rfl | hd'
      · exact absurd rfl hne'
      · rw [(h.settleVary_eq e).1] at hd'
        exact (survivors_sublist c e).subset (List.mem_of_mem_filter hd')
    exact ⟨d', hbefore, hbase, (h.mem_store_iff hh hb hpos hbefore hne').mp hd'⟩
  · intro hkeeps b hhint
    by_cases hne : b = e.baseKey
    · exact ⟨e, hmem, hne.symm⟩
    · obtain ⟨d, hd, rfl⟩ := hhints b ((hother b hne).mp hhint)
      by_cases hgone : c.Displaces e d
      · obtain ⟨d', hd', hbase, hstays⟩ := hkeeps d hd hne ((hother _ hne).mp hhint) hgone
        exact ⟨d', (h.mem_store_iff hh hb hpos hd' (hbase ▸ hne)).mpr hstays, hbase⟩
      · exact ⟨d, (h.mem_store_iff hh hb hpos hd hne).mpr hgone, rfl⟩

theorem HintsLive.size_le (h : c.HintsLive) (hb : c.live.length ≤ c.maxEntries) :
    size c.varyHints ≤ c.maxEntries := by
  have hsize : size c.varyHints ≤ (c.live.map (·.baseKey)).length := by
    apply size_le_of_mem
    intro b hhint
    obtain ⟨e, he, hbase⟩ := h b hhint
    exact List.mem_map.mpr ⟨e, he, hbase⟩
  rw [List.length_map] at hsize
  exact hsize.trans hb

end ResponseCache

namespace Middleware
variable {cfg : CacheConfig} {s s' : Middleware}

def KeepsHints (s : Middleware) : Event → Prop
  | .response i cw now => ∀ f e, s.fetches[i]? = some f →
      entryFromCapture s.cache.defaultTTL f.request (requestKey f.request) cw now = some e →
        s.cache.KeepsHints e
  | .request _ _ => True
  | .failure _ => True

theorem maxEntries_pos (cfg : CacheConfig) : 0 < (newCache cfg).maxEntries := by
  change 0 < if cfg.maxEntries ≤ 0 then 1000 else cfg.maxEntries.toNat
  split <;> omega

theorem hintsLive_release (c : ResponseCache) (key : Option String) :
    (release c key).HintsLive ↔ c.HintsLive := by
  cases key <;> rfl

theorem live_serve (h : Faithful cfg s) (r : Request) (now : ℤ) :
    (∀ d, d ∈ (serve s.cache r now).2.live ↔ d ∈ s.cache.live) ∧
      (serve s.cache r now).2.varyHints = s.cache.varyHints := by
  obtain ⟨uses, hr⟩ := h
  rcases serve_cases s.cache r now with ⟨-, hserve⟩ | ⟨-, refreshing, hserve, -⟩
  · rw [hserve]
    exact ⟨fun _ => Iff.rfl, rfl⟩
  · rw [hserve]
    change (∀ d, d ∈ (s.cache.lookup (requestKey r) r).2.live ↔ _) ∧
      (s.cache.lookup (requestKey r) r).2.varyHints = _
    rcases hr.linked.lookup (requestKey r) r with hmiss | ⟨e, he, -, -, -, hlive, -, hhint⟩
    · rw [hmiss]
      exact ⟨fun _ => Iff.rfl, rfl⟩
    · refine ⟨fun d => ?_, hhint⟩
      rw [hlive, List.mem_cons, List.mem_filter]
      constructor
      · rintro (rfl | ⟨hd, -⟩)
        · exact he
        · exact hd
      · intro hd
        by_cases hkey : d.key = e.key
        · exact .inl (List.inj_on_of_nodup_map hr.linked.nodup_keys hd he hkey)
        · exact .inr ⟨hd, by simpa using hkey⟩

theorem hintsLive_serve (h : Faithful cfg s) (r : Request) (now : ℤ) :
    (serve s.cache r now).2.HintsLive ↔ s.cache.HintsLive := by
  obtain ⟨hlive, hhint⟩ := live_serve h r now
  unfold ResponseCache.HintsLive
  simp only [hhint, hlive]

theorem hintsLive_step_iff {x : Event} (h : Faithful cfg s) (hhints : s.cache.HintsLive)
    (hs : s.step x = some s') :
    s'.cache.HintsLive ↔ s.KeepsHints x := by
  cases x with
  | request r now =>
    rw [step_request] at hs
    cases hs
    exact iff_of_true ((hintsLive_serve h r now).mpr hhints) trivial
  | failure i =>
    obtain ⟨f, -, rfl⟩ := Option.map_eq_some_iff.mp hs
    exact iff_of_true ((hintsLive_release _ _).mpr hhints) trivial
  | response i cw now =>
    obtain ⟨f, hf, rfl⟩ := Option.map_eq_some_iff.mp hs
    obtain ⟨uses, hr⟩ := h
    have hpos : 0 < s.cache.maxEntries := hr.settings.maxEntries ▸ maxEntries_pos cfg
    dsimp only
    rw [hintsLive_release, finish]
    cases he : entryFromCapture s.cache.defaultTTL f.request (requestKey f.request) cw now with
    | none =>
      refine iff_of_true hhints fun f' e hf' he' => ?_
      obtain rfl := Option.some_inj.mp (hf.symm.trans hf')
      rw [he] at he'
      cases he'
    | some e =>
      dsimp only
      rw [hr.linked.hintsLive_store_iff hr.hinted hr.bounded hpos hhints]
      constructor
      · intro hkeeps f' e' hf' he'
        obtain rfl := Option.some_inj.mp (hf.symm.trans hf')
        rw [he] at he'
        obtain rfl := Option.some_inj.mp he'
        exact hkeeps
      · exact fun hkeeps => hkeeps f e hf he

theorem keepsHints_of_none {x : Event} (hs : s.step x = none) : s.KeepsHints x := by
  cases x with
  | request r now => trivial
  | failure i => trivial
  | response i cw now =>
    intro f e hf
    rw [Option.map_eq_none_iff.mp hs] at hf
    cases hf

theorem hintsLive_init (cfg : CacheConfig) : (init cfg).cache.HintsLive := by
  intro b hb
  cases hb

/-- Every hint has an entry at every moment of a run exactly if no store displaces a resource with
a hint; and then there are no more hints than entries are allowed. -/
theorem hints_live_iff (cfg : CacheConfig) (events : List Event) :
    ((∀ n s, exec step (init cfg) (events.take n) = some s → s.cache.HintsLive) ↔
        Meets step KeepsHints (init cfg) events) ∧
      (Meets step KeepsHints (init cfg) events → ∀ n s, exec step (init cfg) (events.take n) = some s →
        size s.cache.varyHints ≤ (newCache cfg).maxEntries) := by
  have hinv : ∀ s x s', Faithful cfg s → step s x = some s' → Faithful cfg s' :=
    fun _ _ _ h hs => h.step hs
  have hiff : (∀ n s, exec step (init cfg) (events.take n) = some s → s.cache.HintsLive) ↔
      Meets step KeepsHints (init cfg) events :=
    always_iff_meets hinv
      (fun _ _ _ h hhints hs => hintsLive_step_iff h hhints hs) (fun _ _ => keepsHints_of_none)
      (faithful_init cfg) (hintsLive_init cfg)
  refine ⟨hiff, fun hmeets n s hr => ?_⟩
  obtain ⟨uses, hrep⟩ := faithful_run hr
  exact ((hiff.mpr hmeets n s hr).size_le hrep.bounded).trans_eq hrep.settings.maxEntries

def localised (path : String) : Request := { method := "GET", host := "site", requestURI := path }

def localisedPage : Capture := { header := Header.ofList [("Vary", ["Accept-Language"])] }

def roomForTwo : CacheConfig := { maxEntries := 2 }

/-- The store overwrites no entry of another resource, and the last entry it leaves is of the same
resource or of one without a hint. -/
def Spares (s : Middleware) : Event → Prop
  | .response i cw now => ∀ f ∈ s.fetches[i]?,
      ∀ e ∈ entryFromCapture s.cache.defaultTTL f.request (requestKey f.request) cw now,
        (∀ d ∈ s.cache.live, d.key = e.key → d.baseKey = e.baseKey) ∧
          ∀ d ∈ (s.cache.survivors e).getLast?, d.baseKey ∈ s.cache.varyHints → d.baseKey = e.baseKey
  | .request _ _ => True
  | .failure _ => True

instance (s : Middleware) : (x : Event) → Decidable (s.Spares x)
  | .response i _ _ => Option.decidableForallMem s.fetches[i]?
  | .request _ _ => isTrue trivial
  | .failure _ => isTrue trivial

theorem Spares.keepsHints {x : Event} (h : s.Spares x) : s.KeepsHints x := by
  cases x with
  | request r now => trivial
  | failure i => trivial
  | response i cw now =>
    intro f e hf he d hd hne hhint hgone
    obtain ⟨hkeys, hlast⟩ := h f hf e he
    rcases hgone with hkey | ⟨-, -, hd'⟩
    · exact absurd (hkeys d hd hkey) hne
    · exact absurd (hlast d hd' hhint) hne

/-- A page without variants and then two that vary: the first is displaced, and it has no hint. -/
def plainFirst : List Event :=
  [.request (localised "/a") 0, .response 0 {} 1, .request (localised "/b") 2,
    .response 0 localisedPage 3,
    .request (localised "/c") 4, .response 0 localisedPage 5]

theorem hints_live_plainFirst :
    (∃ s, exec step (init roomForTwo) plainFirst = some s ∧
      s.cache.live.map (·.baseKey) = ["GET site /c", "GET site /b"] ∧
      s.cache.varyHints.keys = ["GET site /c", "GET site /b"]) ∧
    ∀ n s, exec step (init roomForTwo) (plainFirst.take n) = some s → size s.cache.varyHints ≤ 2 := by
  constructor
  · have hrun : (exec step (init roomForTwo) plainFirst).map
        (fun s => (s.cache.live.map (·.baseKey), s.cache.varyHints.keys)) =
          some (["GET site /c", "GET site /b"], ["GET site /c", "GET site /b"]) := by decide +kernel
    obtain ⟨s, hs, heq⟩ := Option.map_eq_some_iff.mp hrun
    exact ⟨s, hs, Prod.mk_inj.mp heq⟩
  · have hspares : Meets step Spares (init roomForTwo) plainFirst := by decide +kernel
    exact (hints_live_iff roomForTwo plainFirst).2 (hspares.mono fun _ _ => Spares.keepsHints)

/-- A third page displaces the first, whose hint stays. -/
theorem evicted_hint_stays :
    ∃ s, exec step (init roomForTwo) [.request (localised "/a") 0, .response 0 localisedPage 1,
        .request (localised "/b") 2, .response 0 localisedPage 3,
        .request (localised "/c") 4, .response 0 localisedPage 5] = some s ∧
      s.cache.varyHints.keys = ["GET site /c", "GET site /b", "GET site /a"] ∧
      s.cache.live.map (·.baseKey) = ["GET site /c", "GET site /b"] ∧ ¬ s.cache.HintsLive := by
  have hrun : (exec step (init roomForTwo) [.request (localised "/a") 0, .response 0 localisedPage 1,
      .request (localised "/b") 2, .response 0 localisedPage 3,
      .request (localised "/c") 4, .response 0 localisedPage 5]).map
        (fun s => (s.cache.varyHints.keys, s.cache.live.map (·.baseKey))) =
      some (["GET site /c", "GET site /b", "GET site /a"], ["GET site /c", "GET site /b"]) := by
    decide +kernel
  obtain ⟨s, hs, heq⟩ := Option.map_eq_some_iff.mp hrun
  obtain ⟨hkeys, hlive⟩ := Prod.mk_inj.mp heq
  refine ⟨s, hs, hkeys, hlive, fun h => ?_⟩
  obtain ⟨e, he, hbase⟩ := h "GET site /a" (AList.mem_keys.mpr (by rw [hkeys]; decide))
  have hmem := List.mem_map_of_mem (f := CacheEntry.baseKey) he
  rw [hlive, hbase] at hmem
  revert hmem
  decide

end Middleware
end ReverseProxyLb.Cache
