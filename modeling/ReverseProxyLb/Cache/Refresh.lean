import ReverseProxyLb.Cache.Middleware
import ReverseProxyLb.Lib.Crowd

/-! `serve` and `triggerRefresh` step by step: each section under the lock is one step, and
between two of them any other request may move. -/
namespace ReverseProxyLb.Cache
open Lib

namespace ResponseCache

variable (c : ResponseCache)

@[simp] theorem refreshing_lookup (baseKey : String) (r : Request) :
    (c.lookup baseKey r).2.refreshing = c.refreshing := by
  unfold lookup
  split <;> rfl

theorem refreshing_purgeBaseLocked (baseKey : String) :
    (c.purgeBaseLocked baseKey).refreshing = c.refreshing := by
  unfold purgeBaseLocked
  generalize c.entries.entries = ps
  induction ps generalizing c with
  | nil => rfl
  | cons p ps ih =>
    rw [List.foldl_cons, ih]
    unfold purgeStep
    split_ifs <;> rfl

theorem refreshing_settleVary (e : CacheEntry) : (c.settleVary e).refreshing = c.refreshing := by
  unfold settleVary
  dsimp only
  split_ifs
  · exact refreshing_purgeBaseLocked c _
  · exact refreshing_purgeBaseLocked c _
  · rfl

theorem refreshing_evict (fuel : ℕ) : (evict fuel c).refreshing = c.refreshing := by
  induction fuel generalizing c with
  | zero => rfl
  | succ fuel ih =>
    rw [evict]
    split_ifs
    · split
      · rw [ih]
        rfl
      · rfl
    · rfl

theorem refreshing_insertEntry (e : CacheEntry) : (c.insertEntry e).refreshing = c.refreshing := by
  unfold insertEntry
  split
  · rfl
  · rw [refreshing_evict]

@[simp] theorem refreshing_store (e : CacheEntry) : (c.store e).refreshing = c.refreshing := by
  rw [store, refreshing_insertEntry, refreshing_settleVary]

end ResponseCache

@[simp] theorem Middleware.refreshing_finish
    (c : ResponseCache) (r : Request) (cw : Capture) (now : ℤ) :
    (finish c r cw now).refreshing = c.refreshing := by
  unfold finish
  split
  · exact c.refreshing_store _
  · rfl

namespace Refresh

/-- How far the goroutine of a refresh has come. -/
inductive Goroutine where
  /-- The handler runs. -/
  | running
  /-- The handler has returned, and its response is to be stored. -/
  | captured (cw : Capture) (now : ℤ)
  /-- Only the deferred function is left. -/
  | leaving
  | ended

inductive Phase where
  | passing
  /-- The clock has been read, and `lookup` is next. -/
  | looking
  | fetching
  | captured (cw : Capture) (now : ℤ)
  /-- `triggerRefresh` has been called with the key of a stale entry. -/
  | triggering (key : String)
  /-- The guard is set, and the `go` statement is next. -/
  | launching (key : String)
  | answering
  /-- The client is or has been answered beside the goroutine that has been started. -/
  | refreshing (answered : Bool) (key : String) (g : Goroutine)
  | done

structure Visit where
  request : Request
  now : ℤ
  phase : Phase

/-- The code goes on; a handler returns or panics; the answer to the client is written. -/
inductive Act where
  | go
  | returns (cw : Capture) (now : ℤ)
  | panics
  | answer

def Visit.found (v : Visit) : Option CacheEntry → Phase
  | some entry =>
    let authed := v.request.header.get "Authorization" ≠ ""
    if ¬ authed ∨ entry.isPublic then
      if entry.fresh v.now then .answering
      else if entry.serveableStale v.now then .triggering entry.key
      else .fetching
    else .fetching
  | none => .fetching

def act (c : ResponseCache) (v : Visit) (a : Act) : Option (ResponseCache × Visit) :=
  let next (c : ResponseCache) (phase : Phase) := some (c, { v with phase := phase })
  match v.phase, a with
  | .passing, .returns _ _ => next c .done
  | .passing, .panics => next c .done
  | .looking, .go =>
    let (entry, c) := c.lookup (requestKey v.request) v.request
    next c (v.found entry)
  | .fetching, .returns cw now => next c (.captured cw now)
  | .fetching, .panics => next c .done
  | .captured cw now, .go => next (Middleware.finish c v.request cw now) .done
  | .triggering key, .go =>
    let (started, c) := c.beginRefresh key
    next c (if started then .launching key else .answering)
  | .launching key, .go => next c (.refreshing false key .running)
  | .answering, .answer => next c .done
  | .refreshing false key g, .answer => next c (.refreshing true key g)
  | .refreshing b key .running, .returns cw now => next c (.refreshing b key (.captured cw now))
  | .refreshing b key .running, .panics => next c (.refreshing b key .leaving)
  | .refreshing b key (.captured cw now), .go =>
    next (Middleware.finish c v.request cw now) (.refreshing b key .leaving)
  | .refreshing b key .leaving, .go => next (c.endRefresh key) (.refreshing b key .ended)
  | _, _ => none

/-- A request reaches `serve`. -/
def arrive (c : ResponseCache) (r : Request) (now : ℤ) : Visit where
  request := r
  now := now
  phase :=
    if !c.methods.contains r.method then .passing
    else if requestBypassesCache r then .passing
    else .looking

def rules : Crowd.Rules ResponseCache Visit (Request × ℤ) Act Empty where
  enter c j := some (c, arrive c j.1 j.2)
  act := act
  outside _ e := e.elim

def init (cfg : CacheConfig) : Crowd ResponseCache Visit := ⟨newCache cfg, []⟩

def Phase.busy (key : String) : Phase → Bool
  | .launching k => k == key
  | .refreshing _ _ .ended => false
  | .refreshing _ k _ => k == key
  | _ => false

def held (key : String) (v : Visit) : ℤ := if v.phase.busy key then 1 else 0

def guard (key : String) (c : ResponseCache) : ℤ := if key ∈ c.refreshing then 1 else 0

theorem held_nonneg (key : String) (v : Visit) : 0 ≤ held key v := by
  unfold held
  split <;> decide

theorem guard_congr {key : String} {c c' : ResponseCache} (h : c'.refreshing = c.refreshing) :
    guard key c' = guard key c := by
  unfold guard
  rw [h]

theorem beginRefresh_cases (c : ResponseCache) (key : String) :
    (key ∈ c.refreshing ∧ c.beginRefresh key = (false, c)) ∨
      (key ∉ c.refreshing ∧
        c.beginRefresh key = (true, { c with refreshing := key :: c.refreshing })) := by
  unfold ResponseCache.beginRefresh
  by_cases hk : key ∈ c.refreshing
  · simp [hk]
  · simp [hk]

theorem mem_endRefresh {key k : String} {c : ResponseCache} :
    key ∈ (c.endRefresh k).refreshing ↔ key ∈ c.refreshing ∧ key ≠ k := by
  simp [ResponseCache.endRefresh]

variable {key : String} {c c' : ResponseCache} {v v' : Visit} {a : Act}

theorem busy_found (v : Visit) (entry : Option CacheEntry) : (v.found entry).busy key = false := by
  unfold Visit.found
  cases entry with
  | none => rfl
  | some entry =>
    dsimp only
    split_ifs <;> rfl

theorem act_cases (h : act c v a = some (c', v')) :
    (c'.refreshing = c.refreshing ∧ ∀ key, v'.phase.busy key = v.phase.busy key) ∨
      (∃ k, k ∉ c.refreshing ∧ c'.refreshing = k :: c.refreshing ∧ (∀ key, v.phase.busy key = false) ∧
        ∀ key, v'.phase.busy key = (k == key)) ∨
      ∃ k, c' = c.endRefresh k ∧ (∀ key, v.phase.busy key = (k == key)) ∧
        ∀ key, v'.phase.busy key = false := by
  unfold act at h
  dsimp only at h
  split at h
  case h_3 hp =>
    cases h
    refine .inl ⟨c.refreshing_lookup _ _, fun key => ?_⟩
    rw [hp]
    exact busy_found v _
  case h_7 k hp =>
    rcases beginRefresh_cases c k with ⟨-, hbegin⟩ | ⟨hk, hbegin⟩
    · rw [hbegin] at h
      cases h
      exact .inl ⟨rfl, fun key => by rw [hp]; rfl⟩
    · rw [hbegin] at h
      cases h
      exact .inr (.inl ⟨k, hk, rfl, fun key => by rw [hp]; rfl, fun key => rfl⟩)
  case h_14 b k hp =>
    cases h
    exact .inr (.inr ⟨k, rfl, fun key => by rw [hp]; rfl, fun key => rfl⟩)
  case h_15 => cases h
  all_goals
    rename_i hp
    cases h
    refine .inl ⟨?_, fun key => ?_⟩
    · first
      | rfl
      | exact Middleware.refreshing_finish ..
    · rw [hp]
      first
      | rfl
      | (rename_i g; cases g <;> rfl)

theorem held_act (hle : held key v ≤ guard key c) (h : act c v a = some (c', v')) :
    guard key c' = guard key c - held key v + held key v' := by
  rcases act_cases h with ⟨hsame, hbusy⟩ | ⟨k, hk, hnew, hfree, hbusy⟩ | ⟨k, rfl, hbusy, hfree⟩
  · rw [guard_congr hsame, held, held, hbusy]
    ring
  · simp only [held, guard, hfree, hbusy, hnew, List.mem_cons]
    by_cases heq : k = key
    · subst heq
      simp [hk]
    · simp [heq, Ne.symm heq]
  · simp only [held, guard, hfree, hbusy, mem_endRefresh] at hle ⊢
    by_cases heq : k = key
    · subst heq
      by_cases hk : k ∈ c.refreshing
      · simp [hk]
      · simp [hk] at hle
    · simp [heq, Ne.symm heq]

variable {s s' : Crowd ResponseCache Visit}

theorem guard_step {m : Crowd.Move (Request × ℤ) Act Empty}
    (h : guard key s.shared = s.total (held key)) (hs : s.step rules m = some s') :
    guard key s'.shared = s'.total (held key) := by
  apply Crowd.total_step_of_le (held_nonneg key) _ _ _ h hs
  · intro c j c' v hr
    cases hr
    have hfree : (arrive c j.1 j.2).phase.busy key = false := by
      unfold arrive
      dsimp only
      split_ifs <;> rfl
    simp [held, hfree]
  · intro c v a c' v' hle hr
    exact held_act hle hr
  · intro c e
    exact e.elim

def flights (key : String) (s : Crowd ResponseCache Visit) : ℕ := s.parties.countP (·.phase.busy key)

theorem guard_run {cfg : CacheConfig} {ms : List (Crowd.Move (Request × ℤ) Act Empty)}
    (hr : exec (Crowd.step rules) (init cfg) ms = some s) (key : String) :
    (flights key s : ℤ) = guard key s.shared := by
  have hcount : guard key s.shared = s.total (held key) :=
    exec_keeps (fun _ _ _ h hs => guard_step h hs) hr rfl
  rw [hcount]
  exact (Crowd.total_indicator (fun v => v.phase.busy key) s).symm

theorem not_mem_of_flights {cfg : CacheConfig} {ms : List (Crowd.Move (Request × ℤ) Act Empty)}
    (hr : exec (Crowd.step rules) (init cfg) ms = some s) (h : flights key s = 0) :
    key ∉ s.shared.refreshing := by
  intro hk
  have hguard := guard_run hr key
  rw [h, guard, if_pos hk] at hguard
  cases hguard

def Act.ends : Act → Bool
  | .returns _ _ => true
  | .panics => true
  | _ => false

def alone (p : ResponseCache × Visit) (a : Act) : Option (ResponseCache × Visit) := act p.1 p.2 a

theorem ends_of_refreshing {b : Bool} {g : Goroutine} (hv : v.phase = .refreshing b key g)
    (hg : v.phase.busy key) {out : Act} (hout : out.ends) :
    ∃ as c', (∀ a ∈ as, a = .go ∨ a = out) ∧
      exec alone (c, v) as = some (c', { v with phase := .refreshing b key .ended }) ∧
      key ∉ c'.refreshing := by
  obtain ⟨r, now, phase⟩ := v
  dsimp only at hv
  subst hv
  have hgone : ∀ c : ResponseCache, key ∉ (c.endRefresh key).refreshing := by
    intro c hk
    exact (mem_endRefresh.mp hk).2 rfl
  cases g with
  | running =>
    cases out with
    | returns cw t =>
      refine ⟨[.returns cw t, .go, .go], (Middleware.finish c r cw t).endRefresh key, ?_, ?_, hgone _⟩
      · simp
      · cases b <;> rfl
    | panics =>
      refine ⟨[.panics, .go], c.endRefresh key, ?_, ?_, hgone _⟩
      · simp
      · cases b <;> rfl
    | go => cases hout
    | answer => cases hout
  | captured cw t =>
    refine ⟨[.go, .go], (Middleware.finish c r cw t).endRefresh key, ?_, ?_, hgone _⟩
    · simp
    · cases b <;> rfl
  | leaving =>
    refine ⟨[.go], c.endRefresh key, ?_, ?_, hgone _⟩
    · simp
    · cases b <;> rfl
  | ended => cases hg

theorem ends_of_busy (hg : v.phase.busy key) {out : Act} (hout : out.ends) :
    ∃ as c' b, (∀ a ∈ as, a = .go ∨ a = out) ∧
      exec alone (c, v) as = some (c', { v with phase := .refreshing b key .ended }) ∧
      key ∉ c'.refreshing := by
  cases hv : v.phase with
  | launching k =>
    obtain rfl : k = key := by
      rw [hv] at hg
      exact eq_of_beq hg
    have hstart : alone (c, v) .go = some (c, { v with phase := .refreshing false k .running }) := by
      unfold alone act
      rw [hv]
    obtain ⟨as, c', has, hrun, hkey⟩ :=
      ends_of_refreshing (c := c) (v := { v with phase := .refreshing false k .running })
      rfl (beq_self_eq_true k) hout
    refine ⟨.go :: as, c', false, ?_, ?_, hkey⟩
    · simpa using has
    · rw [exec_cons, hstart]
      exact hrun
  | refreshing b k g =>
    obtain rfl : k = key := by
      rw [hv] at hg
      cases g with
      | ended => cases hg
      | _ => exact eq_of_beq hg
    obtain ⟨as, c', has, hrun, hkey⟩ := ends_of_refreshing (c := c) hv hg hout
    exact ⟨as, c', b, has, hrun, hkey⟩
  | _ =>
    rw [hv] at hg
    cases hg

theorem starts_of_triggering (hv : v.phase = .triggering key) (hk : key ∉ c.refreshing) :
    ∃ c', exec alone (c, v) [.go, .go] =
      some (c', { v with phase := .refreshing false key .running }) := by
  have hbegin : alone (c, v) .go =
      some ({ c with refreshing := key :: c.refreshing }, { v with phase := .launching key }) := by
    unfold alone act
    rw [hv]
    simp [ResponseCache.beginRefresh, hk]
  refine ⟨{ c with refreshing := key :: c.refreshing }, ?_⟩
  rw [exec_cons, hbegin]
  rfl

theorem looks_of_stale {r : Request} {now : ℤ} {e : CacheEntry} {b : Bool}
    (h : (serve c r now).1 = .stale e b) :
    (arrive c r now).phase = .looking ∧
      alone (c, arrive c r now) .go =
        some ((c.lookup (requestKey r) r).2, ⟨r, now, .triggering e.key⟩) := by
  unfold serve at h
  split_ifs at h with hm hb
  have hlook : arrive c r now = ⟨r, now, .looking⟩ := by
    unfold arrive
    rw [if_neg hm, if_neg hb]
  rw [hlook]
  refine ⟨rfl, ?_⟩
  change some ((c.lookup (requestKey r) r).2,
    (⟨r, now, Visit.found ⟨r, now, .looking⟩ (c.lookup (requestKey r) r).1⟩ : Visit)) = _
  revert h
  rcases c.lookup (requestKey r) r with ⟨found, c'⟩
  intro h
  cases found with
  | none => cases h
  | some entry =>
    dsimp only at h
    unfold Visit.found
    dsimp only
    split_ifs at h ⊢ with hpub hfresh hstale
    cases h
    rfl

/-- For every key: at most one refresh is running or about to start, and the guard is set exactly
as long as one is; it comes to its end, however its handler ends; and when there is none, a
request that finds a stale entry starts one. -/
theorem refresh_single_flight (cfg : CacheConfig) (ms : List (Crowd.Move (Request × ℤ) Act Empty))
    (s : Crowd ResponseCache Visit) (hr : exec (Crowd.step rules) (init cfg) ms = some s)
    (key : String) :
    flights key s ≤ 1 ∧ (key ∈ s.shared.refreshing ↔ ∃ v ∈ s.parties, v.phase.busy key) ∧
      (∀ i (v : Visit) (out : Act), s.parties[i]? = some v → v.phase.busy key → out.ends →
        ∃ (as : List Act) (s' : Crowd ResponseCache Visit), (∀ a ∈ as, a = .go ∨ a = out) ∧
          exec (Crowd.step rules) s (as.map (.act i)) = some s' ∧ flights key s' = 0) ∧
      (∀ i (v : Visit), s.parties[i]? = some v → v.phase = .triggering key → flights key s = 0 →
        ∃ s', exec (Crowd.step rules) s [.act i .go, .act i .go] = some s' ∧
          s'.parties[i]? = some { v with phase := .refreshing false key .running }) ∧
      ∀ r now e b, (serve s.shared r now).1 = .stale e b → e.key = key → flights key s = 0 →
        ∃ s', exec (Crowd.step rules) s
          ([.enter (r, now)] ++ List.replicate 3 (.act s.parties.length .go)) = some s' ∧
          s'.parties[s.parties.length]? = some ⟨r, now, .refreshing false key .running⟩ := by
  have hguard := guard_run hr key
  refine ⟨?_, ?_, ?_, ?_, ?_⟩
  · unfold guard at hguard
    split_ifs at hguard <;> omega
  · rw [← List.countP_pos_iff (p := fun v : Visit => v.phase.busy key)]
    change _ ↔ 0 < flights key s
    unfold guard at hguard
    split_ifs at hguard with hk <;> simp [hk] <;> omega
  · intro i v out hv hbusy hout
    obtain ⟨as, c', b, has, hrun, hkey⟩ := ends_of_busy (c := s.shared) hbusy hout
    have hmoves := Crowd.exec_act (R := rules) hv hrun
    refine ⟨as, _, has, hmoves, ?_⟩
    have hreach : exec (Crowd.step rules) (init cfg) (ms ++ as.map (.act i)) =
        (exec (Crowd.step rules) (init cfg) ms).bind fun s =>
          exec (Crowd.step rules) s (as.map (.act i)) :=
      exec_append ..
    rw [hr, Option.bind_some, hmoves] at hreach
    have hflights := guard_run hreach key
    rw [guard, if_neg hkey] at hflights
    exact_mod_cast hflights
  · intro i v hv hphase hfree
    obtain ⟨c', hrun⟩ := starts_of_triggering hphase (not_mem_of_flights hr hfree)
    refine ⟨_, Crowd.exec_act (R := rules) hv hrun, ?_⟩
    exact List.getElem?_set_self (List.getElem?_eq_some_iff.mp hv).1
  · intro r now e b hserve hkey hfree
    subst hkey
    obtain ⟨-, hlook⟩ := looks_of_stale hserve
    have hfree' : e.key ∉ (s.shared.lookup (requestKey r) r).2.refreshing := by
      rw [ResponseCache.refreshing_lookup]
      exact not_mem_of_flights hr hfree
    obtain ⟨c', hrun⟩ := starts_of_triggering (v := ⟨r, now, .triggering e.key⟩) rfl hfree'
    have hall : exec alone (s.shared, arrive s.shared r now) [.go, .go, .go] =
        some (c', ⟨r, now, .refreshing false e.key .running⟩) := by
      rw [exec_cons, hlook]
      exact hrun
    have hnew :
        (⟨s.shared, s.parties ++ [arrive s.shared r now]⟩ :
        Crowd ResponseCache Visit).parties[s.parties.length]? =
        some (arrive s.shared r now) := by simp
    refine ⟨_, Crowd.exec_act (R := rules) hnew hall, ?_⟩
    simp

def pageRequest : Request := { method := "GET", host := "site", requestURI := "/page" }

def pageResponse : Capture :=
  { header := Header.ofList [("Cache-Control", ["max-age=1, stale-while-revalidate=60"])] }

/-- Two requests find the page stale, and both call `triggerRefresh`; the refresh of the first
panics and ends, and a third request starts the next. -/
def twoRefreshes : List (Crowd.Move (Request × ℤ) Act Empty) :=
  [.enter (pageRequest, 0), .act 0 .go, .act 0 (.returns pageResponse 0), .act 0 .go,
    .enter (pageRequest, 2 * Time.second), .enter (pageRequest, 2 * Time.second), .act 1 .go,
      .act 2 .go,
    .act 1 .go, .act 2 .go, .act 1 .go, .act 1 .panics, .act 1 .go,
    .enter (pageRequest, 2 * Time.second), .act 3 .go, .act 3 .go]

theorem refresh_single_flight_twoRefreshes :
    ∃ s, exec (Crowd.step rules) (init {}) twoRefreshes = some s ∧
      flights (requestKey pageRequest) s = 1 ∧ requestKey pageRequest ∈ s.shared.refreshing := by
  have hsome : (exec (Crowd.step rules) (init {}) twoRefreshes).isSome := by decide +kernel
  obtain ⟨s, hs⟩ := Option.isSome_iff_exists.mp hsome
  have hone : (exec (Crowd.step rules) (init {}) twoRefreshes).map (flights (requestKey pageRequest)) =
      some 1 := by
    decide +kernel
  rw [hs] at hone
  have hflights : flights (requestKey pageRequest) s = 1 := Option.some.inj hone
  refine ⟨s, hs, hflights, ?_⟩
  apply (refresh_single_flight {} twoRefreshes s hs (requestKey pageRequest)).2.1.mpr
  apply List.countP_pos_iff.mp
  exact Nat.lt_of_lt_of_eq Nat.zero_lt_one hflights.symm

end Refresh
end ReverseProxyLb.Cache
