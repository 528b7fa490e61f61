import ReverseProxyLb.Base.Number
import ReverseProxyLb.Base.Text
import ReverseProxyLb.Lib.Crowd

/-! `validate` answers from a cache or asks the introspection endpoint and caches the
answer. The cache is locked for one lookup or one update, so any number of calls may be
between the two. -/
namespace ReverseProxyLb.Middleware.Introspect
open Lib

structure IntrospectionConfig where
  scopesRequired : List String := []
  cacheTTL : ℤ
  cacheSize : ℤ := 0

/-- `introspectionResponse`, as far as it is read. -/
structure Answer where
  active : Bool
  scope : String := ""
  exp : ℤ := 0
  deriving DecidableEq, Repr

/-- `introspectResult`, with the answer that it was made from. -/
structure IntrospectResult where
  active : Bool
  expiresAt : ℤ
  answer : Answer
  deriving DecidableEq, Repr

/-- The entries, the most recently used first. -/
structure LruCache where
  cap : ℕ
  entries : List (String × IntrospectResult) := []
  deriving DecidableEq, Repr

def newLRUCache (capacity : ℤ) : LruCache := { cap := if capacity ≤ 0 then 1000 else capacity.toNat }

namespace LruCache

def remove (c : LruCache) (key : String) : LruCache :=
  { c with entries := c.entries.filter (·.1 ≠ key) }

def get (c : LruCache) (key : String) (now : ℤ) : Option IntrospectResult × LruCache :=
  match c.entries.find? (·.1 = key) with
  | none => (none, c)
  | some el =>
    if el.2.expiresAt < now then (none, c.remove key)
    else (some el.2, { c with entries := el :: (c.remove key).entries })

def set (c : LruCache) (key : String) (val : IntrospectResult) : LruCache :=
  if c.entries.any (·.1 = key) then { c with entries := (key, val) :: (c.remove key).entries }
  else if c.cap ≤ c.entries.length then { c with entries := (key, val) :: c.entries.dropLast }
  else { c with entries := (key, val) :: c.entries }

end LruCache

/-- `strings.Fields`. -/
def fields (s : String) : List String :=
  ((s.toList.splitOnP Text.isSpace).filter (· ≠ [])).map String.ofList

def hasAllScopes (scopeStr : String) (required : List String) : Bool :=
  required.all fun r => (fields scopeStr).contains r

variable (cfg : IntrospectionConfig)

/-- Whether an answer that has come for a call at `now` makes the token valid. -/
def judge (now : ℤ) (resp : Answer) : Bool :=
  let active := resp.active
  let active := if active ∧ resp.exp ≠ 0 ∧ resp.exp ≤ Time.unix now then false else active
  if active ∧ 0 < cfg.scopesRequired.length then
    if !hasAllScopes resp.scope cfg.scopesRequired then false else active
  else active

def ttlOf (now : ℤ) (resp : Answer) (active : Bool) : ℤ :=
  if active then
    let ttl := cfg.cacheTTL
    if resp.exp ≠ 0 then
      let remaining := int64 (int64 (resp.exp - Time.unix now) * Time.second)
      if remaining < ttl then remaining else ttl
    else ttl
  else
    let ttl := cfg.cacheTTL.tdiv 10
    if ttl < 3 * Time.second then 3 * Time.second else ttl

inductive Phase where
  | looking
  /-- The request to the endpoint is under way. -/
  | asking
  | storing (active : Bool) (resp : Answer)
  /-- What is returned, and the answer on whose strength. -/
  | returned (active : Bool) (resp : Answer)
  | failed
  deriving DecidableEq, Repr

structure Validation where
  token : String
  now : ℤ
  phase : Phase := .looking
  deriving DecidableEq, Repr

/-- The code goes on, or the endpoint answers or fails. -/
inductive Turn where
  | go
  | answer (resp : Answer)
  | fail
  deriving DecidableEq, Repr

/-- The steps of `validate`; `tokenKey` is the digest that keys the cache. -/
def act (tokenKey : String → String) (c : LruCache) (v : Validation) (a : Turn) :
    Option (LruCache × Validation) :=
  match v.phase, a with
  | .looking, .go =>
    match c.get (tokenKey v.token) v.now with
    | (some res, c) => some (c, { v with phase := .returned res.active res.answer })
    | (none, c) => some (c, { v with phase := .asking })
  | .asking, .answer resp => some (c, { v with phase := .storing (judge cfg v.now resp) resp })
  | .asking, .fail => some (c, { v with phase := .failed })
  | .storing active resp, .go =>
    let ttl := ttlOf cfg v.now resp active
    let c := if 0 < ttl then c.set (tokenKey v.token) ⟨active, v.now + ttl, resp⟩ else c
    some (c, { v with phase := .returned active resp })
  | _, _ => none

def rules (tokenKey : String → String) : Crowd.Rules LruCache Validation (String × ℤ) Turn Empty where
  enter c j := some (c, { token := j.1, now := j.2 })
  act := act cfg tokenKey
  outside _ e := e.elim

def init : Crowd LruCache Validation := ⟨newLRUCache cfg.cacheSize, []⟩

def Granted (resp : Answer) : Prop :=
  resp.active = true ∧ ∀ r ∈ cfg.scopesRequired, r ∈ fields resp.scope

/-- The instant `t` is before the answer's `exp`, if it has one. -/
def Answer.CoversAt (resp : Answer) (t : ℤ) : Prop :=
  resp.exp ≠ 0 → Time.sinceEpoch t < resp.exp * Time.second

def Clear (now : ℤ) (resp : Answer) : Prop :=
  resp.exp ≠ 0 → cfg.cacheTTL ≤ 0 ∨ Time.sinceEpoch now + cfg.cacheTTL < resp.exp * Time.second

def ClearTurn (c : Crowd LruCache Validation) : Crowd.Move (String × ℤ) Turn Empty → Prop
  | .act i (.answer resp) => ∀ v ∈ c.parties[i]?, judge cfg v.now resp = true → Clear cfg v.now resp
  | _ => True

instance  (now : ℤ) (resp : Answer) : Decidable (Clear cfg now resp) :=
  inferInstanceAs (Decidable (_ → _))

instance  (c : Crowd LruCache Validation) :
    (m : Crowd.Move (String × ℤ) Turn Empty) → Decidable (ClearTurn cfg c m)
  | .act i (.answer _) => Option.decidableForallMem c.parties[i]?
  | .act _ .go | .act _ .fail | .enter _ | .outside _ => isTrue trivial

variable {cfg} {c c' : LruCache} {v v' : Validation} {a : Turn} {tokenKey : String → String}

theorem granted_of_judge {now : ℤ} {resp : Answer} (h : judge cfg now resp = true) :
    Granted cfg resp ∧ resp.CoversAt now := by
  unfold judge at h
  dsimp only at h
  by_cases hexp : resp.active ∧ resp.exp ≠ 0 ∧ resp.exp ≤ Time.unix now
  · simp [hexp] at h
  rw [if_neg hexp] at h
  have hactive : resp.active = true := by
    split_ifs at h
    · exact h
    · exact h
  refine ⟨⟨hactive, ?_⟩, fun hne => ?_⟩
  · intro r hr
    have hpos : 0 < cfg.scopesRequired.length := List.length_pos_of_mem hr
    rw [if_pos ⟨hactive, hpos⟩] at h
    split_ifs at h with hscopes
    rw [Bool.not_eq_true', Bool.not_eq_false] at hscopes
    have hcontains := List.all_eq_true.mp hscopes r hr
    exact List.contains_iff_mem.mp hcontains
  · have hlt : Time.unix now < resp.exp := by
      by_contra hle
      exact hexp ⟨hactive, hne, not_lt.mp hle⟩
    exact (Int.ediv_lt_iff_lt_mul (by decide)).mp hlt

theorem ttlOf_le (now : ℤ) (resp : Answer) : ttlOf cfg now resp true ≤ cfg.cacheTTL := by
  unfold ttlOf
  simp only [if_true]
  split_ifs with hexp hlt
  · exact hlt.le
  · exact le_rfl
  · exact le_rfl

theorem ttlOf_pos (httl : 0 < cfg.cacheTTL) {now : ℤ} {resp : Answer}
    (hleft : 0 < int64 (int64 (resp.exp - Time.unix now) * Time.second)) :
    0 < ttlOf cfg now resp true := by
  unfold ttlOf
  simp only [if_true]
  split_ifs
  · exact hleft
  · exact httl
  · exact httl

theorem mem_of_get
    {key : String} {now : ℤ} {res : IntrospectResult} (h : (c.get key now).1 = some res) :
    (∃ k, (k, res) ∈ c.entries) ∧ now ≤ res.expiresAt := by
  unfold LruCache.get at h
  cases hfind : c.entries.find? (·.1 = key) with
  | none =>
    rw [hfind] at h
    cases h
  | some el =>
    rw [hfind] at h
    dsimp only at h
    split_ifs at h with hlate
    cases h
    exact ⟨⟨el.1, List.mem_of_find?_eq_some hfind⟩, not_lt.mp hlate⟩

theorem mem_get {key : String} {now : ℤ} {e : String × IntrospectResult}
    (h : e ∈ (c.get key now).2.entries) :
    e ∈ c.entries := by
  unfold LruCache.get at h
  cases hfind : c.entries.find? (·.1 = key) with
  | none =>
    rw [hfind] at h
    exact h
  | some el =>
    rw [hfind] at h
    dsimp only at h
    split_ifs at h
    · exact List.mem_of_mem_filter h
    · rcases List.mem_cons.mp h with rfl | h
      · exact List.mem_of_find?_eq_some hfind
      · exact List.mem_of_mem_filter h

theorem mem_set {key : String} {val : IntrospectResult} {e : String × IntrospectResult}
    (h : e ∈ (c.set key val).entries) : e = (key, val) ∨ e ∈ c.entries := by
  unfold LruCache.set at h
  split_ifs at h
  · exact (List.mem_cons.mp h).imp_right List.mem_of_mem_filter
  · exact (List.mem_cons.mp h).imp_right List.mem_of_mem_dropLast
  · exact List.mem_cons.mp h

/-- What a positive entry rests on; with `strict`, it ends before its answer does. -/
def Backed (cfg : IntrospectionConfig) (strict : Prop) (res : IntrospectResult) : Prop :=
  res.active = true → Granted cfg res.answer ∧ (strict → res.answer.CoversAt res.expiresAt)

def Phase.Backed (cfg : IntrospectionConfig) (strict : Prop) (now : ℤ) : Phase → Prop
  | .storing active resp => active = true →
      Granted cfg resp ∧ resp.CoversAt now ∧ (strict → Clear cfg now resp)
  | .returned active resp => active = true → Granted cfg resp ∧ (strict → resp.CoversAt now)
  | _ => True

variable {strict : Prop} {s s' : Crowd LruCache Validation} {m : Crowd.Move (String × ℤ) Turn Empty}

def Rests (cfg : IntrospectionConfig) (strict : Prop) : Crowd LruCache Validation → Prop :=
  Crowd.Holds (fun c => ∀ e ∈ c.entries, Backed cfg strict e.2) fun _ v =>
    v.phase.Backed cfg strict v.now

theorem CoversAt.mono {resp : Answer} {t t' : ℤ} (h : resp.CoversAt t') (hle : t ≤ t') :
    resp.CoversAt t := by
  intro hne
  have hlt := h hne
  unfold Time.sinceEpoch at hlt ⊢
  omega

theorem covers_stored {now : ℤ} {resp : Answer} (h : Clear cfg now resp)
    (hpos : 0 < ttlOf cfg now resp true) :
    resp.CoversAt (now + ttlOf cfg now resp true) := by
  intro hne
  have hle : ttlOf cfg now resp true ≤ cfg.cacheTTL := ttlOf_le now resp
  rcases h hne with hnone | hclear
  · omega
  · unfold Time.sinceEpoch at hclear ⊢
    omega

theorem Rests.step (hok : strict → ClearTurn cfg s m) (h : Rests cfg strict s)
    (hs : s.step (rules cfg tokenKey) m = some s') : Rests cfg strict s' := by
  refine Crowd.holds_step_of
    (fun j c v _ hr => ?_) (fun i a v c v' hm hv hr => ?_) (fun e => e.elim) h hs
  · cases hr
    exact ⟨h.shared, trivial, fun _ hq => hq⟩
  · have hback := h.each v (List.mem_of_getElem? hv)
    change act cfg tokenKey s.shared v a = some (c, v') at hr
    unfold act at hr
    split at hr
    case h_1 hp =>
      have hin : ∀ e ∈ (s.shared.get (tokenKey v.token) v.now).2.entries, e ∈ s.shared.entries :=
        fun e => mem_get
      have hhit : ∀ res, (s.shared.get (tokenKey v.token) v.now).1 = some res →
          (∃ k, (k, res) ∈ s.shared.entries) ∧ v.now ≤ res.expiresAt := fun res => mem_of_get
      generalize s.shared.get (tokenKey v.token) v.now = got at hr hin hhit
      obtain ⟨found, c₁⟩ := got
      cases found with
      | none =>
        cases hr
        exact ⟨fun e he => h.shared e (hin e he), trivial, fun _ hq => hq⟩
      | some res =>
        cases hr
        refine ⟨fun e he => h.shared e (hin e he), fun hactive => ?_, fun _ hq => hq⟩
        obtain ⟨⟨k, hk⟩, hlate⟩ := hhit res rfl
        obtain ⟨hgranted, hcovers⟩ := h.shared _ hk hactive
        exact ⟨hgranted, fun hstrict => CoversAt.mono (hcovers hstrict) hlate⟩
    case h_2 resp hp =>
      cases hr
      refine ⟨h.shared, fun hactive => ?_, fun _ hq => hq⟩
      obtain ⟨hgranted, hcovers⟩ := granted_of_judge hactive
      refine ⟨hgranted, hcovers, fun hstrict => ?_⟩
      have hclear := hok hstrict
      rw [hm] at hclear
      exact hclear v hv hactive
    case h_3 hp =>
      cases hr
      exact ⟨h.shared, trivial, fun _ hq => hq⟩
    case h_4 active resp hp =>
      rw [hp] at hback
      cases hr
      refine ⟨fun e he => ?_, fun hactive => ⟨(hback hactive).1, fun _ => (hback hactive).2.1⟩,
        fun _ hq => hq⟩
      split_ifs at he with hpos
      · rcases mem_set he with rfl | he
        · intro hactive
          dsimp only at hactive
          subst hactive
          exact ⟨(hback rfl).1, fun hstrict => covers_stored ((hback rfl).2.2 hstrict) hpos⟩
        · exact h.shared e he
      · exact h.shared e he
    case h_5 => cases hr

theorem rests_init : Rests cfg strict (init cfg) := by
  constructor
  · intro e he
    cases he
  · intro v hv
    cases hv

theorem rests_run {ms : List (Crowd.Move (String × ℤ) Turn Empty)}
    (hr : exec (Crowd.step (rules cfg tokenKey)) (init cfg) ms = some s)
    (hm : strict → Meets (Crowd.step (rules cfg tokenKey)) (ClearTurn cfg) (init cfg) ms) :
    Rests cfg strict s := by
  by_cases hstrict : strict
  · exact exec_invariant
      (fun _ _ _ h hok hs => Rests.step (fun _ => hok) h hs) (hm hstrict) hr rests_init
  · exact exec_keeps
      (fun _ _ _ h hs => Rests.step (fun hyes => (hstrict hyes).elim) h hs) hr rests_init

def lastMoment (scope : String) : Answer := { active := true, scope := scope, exp := 1 }

def lateCalls (scope : String) : List (Crowd.Move (String × ℤ) Turn Empty) :=
  [.enter ("", Time.unixEpoch + Time.second - 1), .act 0 .go, .act 0 (.answer (lastMoment scope)),
    .act 0 .go,
    .enter ("", Time.unixEpoch + Time.second), .act 1 .go]

theorem cap_pos (capacity : ℤ) : 0 < (newLRUCache capacity).cap := by
  unfold newLRUCache
  dsimp only
  split_ifs <;> omega

theorem first_call (hcap : 0 < c.cap) (hc : c.entries = []) {resp : Answer}
    (hjudge : judge cfg v.now resp = true) (hpos : 0 < ttlOf cfg v.now resp true)
    (hv : v.phase = .looking) :
    exec (fun p a => act cfg tokenKey p.1 p.2 a) (c, v) [.go, .answer resp, .go] =
      some
        ({ c with entries := [(tokenKey v.token, ⟨true, v.now + ttlOf cfg v.now resp true, resp⟩)] },
        { v with phase := .returned true resp }) := by
  have hset : ∀ val,
      c.set (tokenKey v.token) val = { c with entries := [(tokenKey v.token, val)] } := by
    intro val
    unfold LruCache.set
    rw [hc]
    simp [hcap.ne']
  have hget : c.get (tokenKey v.token) v.now = (none, c) := by
    unfold LruCache.get
    rw [hc]
    rfl
  simp [exec, act, hv, hget, hjudge, hpos, hset]

theorem second_call {key : String} {res : IntrospectResult} (hc : c.entries = [(key, res)])
    (hkey : tokenKey v.token = key) (htime : v.now ≤ res.expiresAt) (hv : v.phase = .looking) :
    exec (fun p a => act cfg tokenKey p.1 p.2 a) (c, v) [.go] =
      some (c, { v with phase := .returned res.active res.answer }) := by
  have hget : c.get (tokenKey v.token) v.now = (some res, c) := by
    obtain ⟨cap, entries⟩ := c
    dsimp only at hc
    subst hc hkey
    simp [LruCache.get, LruCache.remove, not_lt.mpr htime]
  simp [exec, act, hv, hget]

theorem lateCalls_run (tokenKey : String → String) (httl : 0 < cfg.cacheTTL) {scope : String}
    (hscope : hasAllScopes scope cfg.scopesRequired = true) :
    ∃ s, exec (Crowd.step (rules cfg tokenKey)) (init cfg) (lateCalls scope) = some s ∧
      s.parties[1]? = some ⟨"", Time.unixEpoch + Time.second, .returned true (lastMoment scope)⟩ := by
  have hunix : Time.unix (Time.unixEpoch + Time.second - 1) = 0 := by decide +kernel
  have hjudge : judge cfg (Time.unixEpoch + Time.second - 1) (lastMoment scope) = true := by
    unfold judge
    rw [hunix]
    simp [lastMoment, hscope]
  have hpos : 0 < ttlOf cfg (Time.unixEpoch + Time.second - 1) (lastMoment scope) true := by
    apply ttlOf_pos httl
    change 0 < int64 (int64 (1 - Time.unix (Time.unixEpoch + Time.second - 1)) * Time.second)
    rw [hunix]
    decide +kernel
  have hfirst := Crowd.exec_act (R := rules cfg tokenKey)
    (c := ⟨newLRUCache cfg.cacheSize, [⟨"", Time.unixEpoch + Time.second - 1, .looking⟩]⟩) (i := 0) rfl
    (first_call (cap_pos cfg.cacheSize) rfl hjudge hpos rfl)
  have hsecond := Crowd.exec_act (R := rules cfg tokenKey)
    (c := ⟨{ newLRUCache cfg.cacheSize with entries := [(tokenKey "", ⟨true, _, lastMoment scope⟩)] },
      [⟨"", Time.unixEpoch + Time.second - 1, .returned true (lastMoment scope)⟩,
        ⟨"", Time.unixEpoch + Time.second, .looking⟩]⟩) (i := 1) rfl
    (second_call rfl rfl (by dsimp only; omega : _ ≤ Time.unixEpoch + Time.second - 1 +
      ttlOf cfg (Time.unixEpoch + Time.second - 1) (lastMoment scope) true) rfl)
  have hsplit : exec (Crowd.step (rules cfg tokenKey)) (init cfg) (lateCalls scope) =
      exec (Crowd.step (rules cfg tokenKey))
        ⟨newLRUCache cfg.cacheSize, [⟨"", Time.unixEpoch + Time.second - 1, .looking⟩]⟩
        ([.go, .answer (lastMoment scope), .go].map (.act 0) ++
          (.enter ("", Time.unixEpoch + Time.second) :: [.go].map (.act 1))) := rfl
  rw [exec_append, hfirst] at hsplit
  exact ⟨_, hsplit.trans hsecond, rfl⟩

/-- Every positive result rests on an active answer with the required scopes. It comes before the
`exp` of that answer if positive answers arrive more than the cache lifetime before it; and in
every run exactly if nothing is cached for a positive time, or no scope is enough. -/
theorem introspection_outlives_iff (cfg : IntrospectionConfig) (tokenKey : String → String) :
    (∀ ms s, exec (Crowd.step (rules cfg tokenKey)) (init cfg) ms = some s →
        ∀ v ∈ s.parties, ∀ resp, v.phase = .returned true resp → Granted cfg resp) ∧
      (∀ ms s, exec (Crowd.step (rules cfg tokenKey)) (init cfg) ms = some s →
        Meets (Crowd.step (rules cfg tokenKey)) (ClearTurn cfg) (init cfg) ms →
        ∀ v ∈ s.parties, ∀ resp, v.phase = .returned true resp → resp.CoversAt v.now) ∧
      ((∀ ms s, exec (Crowd.step (rules cfg tokenKey)) (init cfg) ms = some s →
          ∀ v ∈ s.parties, ∀ resp, v.phase = .returned true resp → resp.CoversAt v.now) ↔
        cfg.cacheTTL ≤ 0 ∨ ∀ scope, hasAllScopes scope cfg.scopesRequired = false) := by
  have hclear : ∀ ms s, exec (Crowd.step (rules cfg tokenKey)) (init cfg) ms = some s →
      Meets (Crowd.step (rules cfg tokenKey)) (ClearTurn cfg) (init cfg) ms →
      ∀ v ∈ s.parties, ∀ resp, v.phase = .returned true resp → resp.CoversAt v.now := by
    intro ms s hr hm v hv resp hp
    have hrests : Rests cfg True s := rests_run hr fun _ => hm
    have hback := hrests.each v hv
    rw [hp] at hback
    exact (hback rfl).2 trivial
  have hgranted : ∀ ms s, exec (Crowd.step (rules cfg tokenKey)) (init cfg) ms = some s →
      ∀ v ∈ s.parties, ∀ resp, v.phase = .returned true resp → Granted cfg resp := by
    intro ms s hr v hv resp hp
    have hrests : Rests cfg False s := rests_run hr False.elim
    have hback := hrests.each v hv
    rw [hp] at hback
    exact (hback rfl).1
  refine ⟨hgranted, hclear, ?_⟩
  constructor
  · intro hall
    by_contra hneg
    simp only [not_or, not_le, not_forall, Bool.not_eq_false] at hneg
    obtain ⟨httl, scope, hscope⟩ := hneg
    obtain ⟨s, hs, hlate⟩ := lateCalls_run tokenKey httl hscope
    have hcovers := hall _ s hs _ (List.mem_of_getElem? hlate) _ rfl one_ne_zero
    change Time.sinceEpoch (Time.unixEpoch + Time.second) < 1 * Time.second at hcovers
    exact absurd hcovers (by decide +kernel)
  · rintro (httl | hnone) ms s hr v hv resp hp
    · refine hclear ms s hr (meets_of_always (fun c m => ?_) _ _) v hv resp hp
      unfold ClearTurn
      split
      · exact fun v _ _ _ => .inl httl
      · trivial
    · obtain ⟨-, hscopes⟩ := hgranted ms s hr v hv resp hp
      have hall : hasAllScopes resp.scope cfg.scopesRequired = true :=
        List.all_eq_true.mpr fun r hr => List.contains_iff_mem.mpr (hscopes r hr)
      rw [hnone resp.scope] at hall
      cases hall

/-- The second call is answered from the cache, the third asks again, and the fourth is told that
the token is revoked. -/
def wellBefore : List (Crowd.Move (String × ℤ) Turn Empty) :=
  [.enter ("token", Time.unixEpoch + 100 * Time.second), .act 0 .go,
    .act 0 (.answer { active := true, exp := 1000 }),
    .enter ("other", Time.unixEpoch + 200 * Time.second), .act 0 .go, .act 1 .go, .act 1 .fail,
    .enter ("token", Time.unixEpoch + 400 * Time.second), .act 2 .go,
    .enter ("token", Time.unixEpoch + 401 * Time.second), .act 3 .go,
      .act 3 (.answer { active := true, exp := 1000 }),
    .act 3 .go, .enter ("token", Time.unixEpoch + 702 * Time.second), .act 4 .go,
      .act 4 (.answer { active := false }), .act 4 .go]

theorem introspection_outlives_wellBefore :
    ∃ s, exec (Crowd.step (rules { cacheTTL := 300 * Time.second } id))
      (init { cacheTTL := 300 * Time.second })
        wellBefore = some s ∧
      s.parties.map (·.phase) = [.returned true { active := true, exp := 1000 }, .failed,
        .returned true { active := true, exp := 1000 }, .returned true { active := true, exp := 1000 },
        .returned false { active := false }] ∧
      ∀ v ∈ s.parties, ∀ resp, v.phase = .returned true resp → resp.CoversAt v.now := by
  have hrun :
      (exec (Crowd.step (rules { cacheTTL := 300 * Time.second } id))
      (init { cacheTTL := 300 * Time.second })
      wellBefore).map (·.parties.map (·.phase)) = some [.returned true { active := true, exp := 1000 },
        .failed,
        .returned true { active := true, exp := 1000 }, .returned true { active := true, exp := 1000 },
        .returned false { active := false }] := by decide +kernel
  obtain ⟨s, hs, hphases⟩ := Option.map_eq_some_iff.mp hrun
  exact ⟨s, hs, hphases, (introspection_outlives_iff _ id).2.1 wellBefore s hs (by decide +kernel)⟩

/-- The token ends at second 100. The call half a second before caches the answer for a second,
which the call three tenths after the end is given. -/
theorem cached_past_exp :
    (exec (Crowd.step (rules { cacheTTL := 300 * Time.second } id))
      (init { cacheTTL := 300 * Time.second })
      [.enter ("token", Time.unixEpoch + 99500000000), .act 0 .go,
      .act 0 (.answer { active := true, exp := 100 }),
        .act 0 .go, .enter ("token", Time.unixEpoch + 100300000000),
          .act 1 .go]).map (·.parties.map (·.phase)) =
        some [.returned true { active := true, exp := 100 },
          .returned true { active := true, exp := 100 }] ∧
      ¬ ({ active := true, exp := 100 } : Answer).CoversAt (Time.unixEpoch + 100300000000) := by
  constructor
  · decide +kernel
  · intro h
    exact absurd (h (by decide)) (by decide +kernel)

end ReverseProxyLb.Middleware.Introspect
