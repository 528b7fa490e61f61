import ReverseProxyLb.Cache.Representation
import ReverseProxyLb.Lib.Run

/-! Requests are answered from the cache or passed on; what the handler answers is stored
when it has returned. Any number of handler calls and background refreshes are in progress
at a time. -/
namespace ReverseProxyLb.Cache
open Text Lib

/-- How `serve` goes on with a request. -/
inductive Served where
  /-- Passed through, and never stored. -/
  | bypass
  /-- Handed to `fetchAndMaybeStore`. -/
  | fetch
  /-- Answered with a fresh entry. -/
  | hit (e : CacheEntry)
  /-- Answered with an expired entry; the flag tells whether a refresh is started. -/
  | stale (e : CacheEntry) (refresh : Bool)

def Served.entry : Served → Option CacheEntry
  | .hit e => some e
  | .stale e _ => some e
  | .bypass => none
  | .fetch => none

/-- The part of `triggerRefresh` under the lock. -/
def ResponseCache.beginRefresh (c : ResponseCache) (key : String) : Bool × ResponseCache :=
  if c.refreshing.contains key then (false, c)
  else (true, { c with refreshing := key :: c.refreshing })

def ResponseCache.endRefresh (c : ResponseCache) (key : String) : ResponseCache :=
  { c with refreshing := c.refreshing.filter (· ≠ key) }

def serve (c : ResponseCache) (r : Request) (now : ℤ) : Served × ResponseCache :=
  if !c.methods.contains r.method then (.bypass, c)
  else if requestBypassesCache r then (.bypass, c)
  else
    let authed := r.header.get "Authorization" ≠ ""
    match c.lookup (requestKey r) r with
    | (some entry, c) =>
      if ¬ authed ∨ entry.isPublic then
        if entry.fresh now then (.hit entry, c)
        else if entry.serveableStale now then
          let (started, c) := c.beginRefresh entry.key
          (.stale entry started, c)
        else (.fetch, c)
      else (.fetch, c)
    | (none, c) => (.fetch, c)

/-- A handler call in progress; a background refresh keeps the key it is for. -/
structure Fetch where
  request : Request
  refreshOf : Option String

/-- The middleware, with the calls made on the cache so far. -/
structure Middleware where
  cache : ResponseCache
  fetches : List Fetch
  calls : List Access

/-- A request arrives, or a handler call in progress returns with a response or panics. -/
inductive Event where
  | request (r : Request) (now : ℤ)
  | response (i : ℕ) (cw : Capture) (now : ℤ)
  | failure (i : ℕ)

namespace Middleware

def init (cfg : CacheConfig) : Middleware := ⟨newCache cfg, [], []⟩

/-- The calls `serve` makes on the cache. -/
def lookups (c : ResponseCache) (r : Request) : List Access :=
  if !c.methods.contains r.method || requestBypassesCache r then [] else [.lookup r]

/-- The handler calls `serve` starts. -/
def starts (r : Request) : Served → List Fetch
  | .fetch => [⟨r, none⟩]
  | .stale e true => [⟨r, some e.key⟩]
  | _ => []

def finish (c : ResponseCache) (r : Request) (cw : Capture) (now : ℤ) : ResponseCache :=
  match entryFromCapture c.defaultTTL r (requestKey r) cw now with
  | some e => c.store e
  | none => c

def release (c : ResponseCache) : Option String → ResponseCache
  | some key => c.endRefresh key
  | none => c

def step (s : Middleware) : Event → Option Middleware
  | .request r now =>
    let (served, c) := serve s.cache r now
    some ⟨c, s.fetches ++ starts r served, s.calls ++ lookups s.cache r⟩
  | .response i cw now =>
    s.fetches[i]?.map fun f =>
      ⟨release (finish s.cache f.request cw now) f.refreshOf, s.fetches.eraseIdx i,
        s.calls ++ [.store f.request cw now]⟩
  | .failure i =>
    s.fetches[i]?.map fun f =>
      ⟨release s.cache f.refreshOf, s.fetches.eraseIdx i, s.calls⟩

theorem step_request (s : Middleware) (r : Request) (now : ℤ) :
    s.step (.request r now) = some ⟨(serve s.cache r now).2,
      s.fetches ++ starts r (serve s.cache r now).1, s.calls ++ lookups s.cache r⟩ := rfl

/-- The cache of the middleware is the one its calls lead to, up to the refreshes in
progress. -/
def Faithful (cfg : CacheConfig) (s : Middleware) : Prop :=
  ∃ uses, Traced.Represents cfg s.calls ⟨s.cache, uses⟩

variable {cfg : CacheConfig} {s s' : Middleware}

theorem represents_refreshing {calls : List Access} {c : ResponseCache} {uses : List String}
    (h : Traced.Represents cfg calls ⟨c, uses⟩) (refreshing : List String) :
    Traced.Represents cfg calls ⟨{ c with refreshing := refreshing }, uses⟩ where
  linked := ⟨h.linked.pointed, h.linked.indexed, h.linked.distinct, h.linked.unborn⟩
  hinted := ⟨h.hinted.varyNames⟩
  settings := ⟨h.settings.methods, h.settings.defaultTTL, h.settings.maxEntries⟩
  bounded := h.bounded
  recency := h.recency
  origin := h.origin

theorem represents_release {calls : List Access} {c : ResponseCache} {uses : List String}
    (h : Traced.Represents cfg calls ⟨c, uses⟩) (key : Option String) :
    Traced.Represents cfg calls ⟨release c key, uses⟩ := by
  cases key with
  | none => exact h
  | some key => exact represents_refreshing h _

theorem serve_cases (c : ResponseCache) (r : Request) (now : ℤ) :
    (lookups c r = [] ∧ serve c r now = (.bypass, c)) ∨
      (lookups c r = [.lookup r] ∧ ∃ refreshing,
        (serve c r now).2 = { (c.lookup (requestKey r) r).2 with refreshing := refreshing } ∧
        ∀ e, (serve c r now).1.entry = some e → (c.lookup (requestKey r) r).1 = some e ∧
          (r.header.get "Authorization" ≠ "" → e.isPublic = true)) := by
  unfold lookups serve
  by_cases hm : (!c.methods.contains r.method) = true
  · left
    simp only [hm, Bool.true_or, if_true, and_self]
  by_cases hb : requestBypassesCache r = true
  · left
    simp [hb]
  right
  simp only [hm, hb, Bool.or_self, Bool.false_eq_true, if_false, true_and]
  rcases c.lookup (requestKey r) r with ⟨found, c'⟩
  cases found with
  | none => exact ⟨c'.refreshing, rfl, by simp [Served.entry]⟩
  | some entry =>
    dsimp only
    unfold ResponseCache.beginRefresh
    split_ifs with hpub hfresh hstale hbusy
    · refine ⟨c'.refreshing, rfl, ?_⟩
      intro e he
      cases he
      exact ⟨rfl, fun ha => hpub.resolve_left (not_not.mpr ha)⟩
    · refine ⟨c'.refreshing, rfl, ?_⟩
      intro e he
      cases he
      exact ⟨rfl, fun ha => hpub.resolve_left (not_not.mpr ha)⟩
    · refine ⟨_, rfl, ?_⟩
      intro e he
      cases he
      exact ⟨rfl, fun ha => hpub.resolve_left (not_not.mpr ha)⟩
    · exact ⟨c'.refreshing, rfl, by simp [Served.entry]⟩
    · exact ⟨c'.refreshing, rfl, by simp [Served.entry]⟩

theorem Faithful.step {e : Event} (h : Faithful cfg s) (hs : s.step e = some s') :
    Faithful cfg s' := by
  obtain ⟨uses, hr⟩ := h
  cases e with
  | request r now =>
    rw [step_request] at hs
    cases hs
    rcases serve_cases s.cache r now with ⟨hnone, hserve⟩ | ⟨hlook, refreshing, hserve, _⟩
    · refine ⟨uses, ?_⟩
      dsimp only
      rw [hnone, List.append_nil, hserve]
      exact hr
    · have hl := hr.lookup r
      rw [Traced.access_lookup] at hl
      unfold Faithful
      dsimp only
      rw [hlook, hserve]
      exact ⟨_, represents_refreshing hl refreshing⟩
  | response i cw now =>
    obtain ⟨f, _, rfl⟩ := Option.map_eq_some_iff.mp hs
    have hstore := hr.store f.request cw now
    unfold Traced.access at hstore
    unfold Faithful finish
    dsimp only at hstore ⊢
    cases he : entryFromCapture s.cache.defaultTTL f.request (requestKey f.request) cw now with
    | none =>
      rw [he] at hstore
      exact ⟨uses, represents_release hstore _⟩
    | some e =>
      rw [he] at hstore
      exact ⟨_, represents_release hstore _⟩
  | failure i =>
    obtain ⟨f, _, rfl⟩ := Option.map_eq_some_iff.mp hs
    exact ⟨uses, represents_release hr _⟩

theorem store_of_step {e : Event} (hs : s.step e = some s') {p : Request} {cw : Capture} {t : ℤ}
    (hc : Access.store p cw t ∈ s'.calls) :
    Access.store p cw t ∈ s.calls ∨ ∃ i, e = .response i cw t := by
  cases e with
  | request r now =>
    rw [step_request] at hs
    cases hs
    rcases List.mem_append.mp hc with hc | hc
    · exact .inl hc
    · unfold lookups at hc
      split at hc <;> simp at hc
  | response i cw' now =>
    obtain ⟨f, _, rfl⟩ := Option.map_eq_some_iff.mp hs
    rcases List.mem_append.mp hc with hc | hc
    · exact .inl hc
    · cases List.mem_singleton.mp hc
      exact .inr ⟨i, rfl⟩
  | failure i =>
    obtain ⟨f, _, rfl⟩ := Option.map_eq_some_iff.mp hs
    exact .inl hc

theorem faithful_init (cfg : CacheConfig) : Faithful cfg (init cfg) :=
  ⟨_, Traced.represents_run cfg []⟩

theorem faithful_run {es : List Event} (hr : exec step (init cfg) es = some s) :
    Faithful cfg s :=
  exec_keeps (fun _ _ _ hi hs => hi.step hs) hr (faithful_init cfg)

def answered (s : Middleware) (q : Request) (now : ℤ) : Option CacheEntry :=
  (serve s.cache q now).1.entry

theorem answered_live (h : Faithful cfg s) {q : Request} {now : ℤ} {e : CacheEntry}
    (ha : s.answered q now = some e) :
    e ∈ s.cache.live ∧ e.key = s.cache.lookupKey (requestKey q) q ∧
      (q.header.get "Authorization" ≠ "" → e.isPublic = true) := by
  obtain ⟨uses, hr⟩ := h
  rcases serve_cases s.cache q now with ⟨_, hserve⟩ | ⟨_, _, _, hfound⟩
  · simp [answered, hserve, Served.entry] at ha
  · obtain ⟨hlook, hauth⟩ := hfound e ha
    rcases hr.linked.lookup (requestKey q) q with hmiss | ⟨e', he', hkey, hfound', _⟩
    · simp only at hmiss
      rw [hmiss] at hlook
      exact absurd hlook (by simp)
    · simp only at hfound'
      rw [hfound'] at hlook
      cases hlook
      exact ⟨he', hkey, hauth⟩

end Middleware
end ReverseProxyLb.Cache
