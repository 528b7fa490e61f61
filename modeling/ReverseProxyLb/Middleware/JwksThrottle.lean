import ReverseProxyLb.Middleware.Jwt

/-! Which lookups of the key cache make a fetch. A call forces one whenever the signature
has not verified, whether the key was known or not. -/
namespace ReverseProxyLb.Middleware.Jwt
open Lib

variable (std : Primitives) (v : JwtVerifier)

/-- `jwksKey` calls `fetchLocked`. -/
def Fetches (s : Jwks) (kid : String) (forceRefresh : Bool) (clock : Clock) : Prop :=
  forceRefresh = true ∨
    lookupLocked s kid = none ∧
      (s.jwksFetched = false ∨ v.jwksMinWait ≤ Time.sub (clock 0) s.lastFetch)

instance (s : Jwks) (kid : String) (forceRefresh : Bool) (clock : Clock) :
    Decidable (Fetches v s kid forceRefresh clock) := inferInstanceAs (Decidable (_ ∨ _))

def Unknown (s : Jwks) (kid : String) : Prop := kid ≠ "" ∧ lookupLocked s kid = none

instance (s : Jwks) (kid : String) : Decidable (Unknown s kid) := inferInstanceAs (Decidable (_ ∧ _))

structure Ask where
  call : ℕ
  kid : String
  forceRefresh : Bool
  input : Input

def TokenCall.asks (t : TokenCall) : Option (String × Bool) :=
  match t.prog with
  | .op (.jwksKey kid forceRefresh) _ => some (kid, forceRefresh)
  | _ => none

def asks (c : Crowd Jwks TokenCall) : Crowd.Move String Input Empty → Option Ask
  | .act i input => c.parties[i]?.bind fun t =>
      (TokenCall.asks t).map fun q => ⟨i, q.1, q.2, input⟩
  | _ => none

/-- A fetch, with the call that made it, its time, and whether the key id of the token was
unknown. -/
structure Fetched where
  call : ℕ
  time : ℤ
  unknown : Bool
  deriving DecidableEq

def Ask.fetch (s : Jwks) (q : Ask) : Option Fetched :=
  if Fetches v s q.kid q.forceRefresh q.input.clock then
    some ⟨q.call, q.input.clock 1, decide (Unknown s q.kid)⟩
  else none

/-- The calls of `verify`, with the fetches so far and the latest reading of the clock. -/
structure Watch where
  calls : Crowd Jwks TokenCall := ⟨{}, []⟩
  fetches : List Fetched := []
  time : ℤ

def Watch.tick (w : Watch) : Crowd.Move String Input Empty → Option ℤ
  | .act _ input =>
    if w.time ≤ input.clock 0 ∧ input.clock 0 ≤ input.clock 1 then some (input.clock 1) else none
  | _ => some w.time

def Watch.step (w : Watch) (m : Crowd.Move String Input Empty) : Option Watch :=
  (w.tick m).bind fun time => (w.calls.step (tokenRules std v) m).map fun calls =>
    ⟨calls, w.fetches ++ ((asks w.calls m).bind (Ask.fetch v w.calls.shared)).toList, time⟩

/-- Of two fetches closer than `jwksMinWait` the later was for an unknown key id, and no call has
made two. -/
structure Throttled (fetches : List Fetched) : Prop where
  apart : fetches.Pairwise fun a b => b.time - a.time < v.jwksMinWait → b.unknown = true
  once : (fetches.map (·.call)).Nodup

/-- A forced lookup is the first fetch of its call, and it is for an unknown key id or the
latest fetch is long enough ago. -/
def Watch.Spared (w : Watch) (m : Crowd.Move String Input Empty) : Prop :=
  ∀ q ∈ asks w.calls m, q.forceRefresh = true → q.call ∉ w.fetches.map (·.call) ∧
    (Unknown w.calls.shared q.kid ∨ (w.calls.shared.jwksFetched = true →
      v.jwksMinWait ≤ q.input.clock 1 - w.calls.shared.lastFetch))

variable {std v} {s : Jwks} {kid : String} {forceRefresh : Bool} {i : Input}

theorem fetchLocked_marks (s : Jwks) (now : ℤ) (reply : Reply) :
    (fetchLocked std s now reply).1.jwksFetched = true ∧
      (fetchLocked std s now reply).1.lastFetch = now := by
  unfold fetchLocked
  dsimp only
  split
  · exact ⟨rfl, rfl⟩
  · split_ifs
    · exact ⟨rfl, rfl⟩
    · split
      · exact ⟨rfl, rfl⟩
      · split
        · exact ⟨rfl, rfl⟩
        · split_ifs <;> exact ⟨rfl, rfl⟩

theorem jwksKey_cases (std : Primitives) (s : Jwks) (kid : String) (forceRefresh : Bool)
    (clock : Clock) (reply : Reply) :
    (Fetches v s kid forceRefresh clock ∧
        (jwksKey std v s kid forceRefresh clock reply).1 = (fetchLocked std s (clock 1) reply).1) ∨
      (¬ Fetches v s kid forceRefresh clock ∧
        (jwksKey std v s kid forceRefresh clock reply).1 = s) := by
  unfold jwksKey Fetches
  cases forceRefresh with
  | true =>
    left
    refine ⟨.inl rfl, ?_⟩
    simp only [if_true, true_or]
    split <;> simp_all
  | false =>
    simp only [Bool.false_eq_true, if_false, false_or, Bool.not_eq_true']
    cases hk : lookupLocked s kid with
    | some k => simp
    | none =>
      dsimp only
      split_ifs with hdue
      · left
        refine ⟨⟨rfl, hdue⟩, ?_⟩
        split <;> simp_all
      · right
        exact ⟨fun h => hdue h.2, rfl⟩

variable {α β : Type}

def Later : TokenProg α → Prop
  | .op o k => (∀ kid, o ≠ .jwksKey kid false) ∧ ∀ a, Later (k a)
  | _ => True

def First : TokenProg α → Prop
  | .op _ k => ∀ a, Later (k a)
  | _ => True

theorem Later.bind {p : TokenProg α} {f : α → TokenProg β} (hp : Later p) (hf : ∀ a, Later (f a)) :
    Later (p >>= f) := by
  change Later (p.bind f)
  induction p with
  | ret a => exact hf a
  | op o k ih => exact ⟨hp.1, fun a => ih a (hp.2 a)⟩
  | _ => trivial

theorem Later.first {p : TokenProg α} (h : Later p) : First p := by
  cases p with
  | op o k => exact h.2
  | _ => trivial

theorem First.bind {p : TokenProg α} {f : α → TokenProg β} (hp : First p) (hf : ∀ a, Later (f a)) :
    First (p >>= f) := by
  cases p with
  | ret a => exact (hf a).first
  | op o k => exact fun a => (hp a).bind hf
  | _ => trivial

theorem later_claimsValid (payloadSeg : String) : Later (claimsValid std payloadSeg) := by
  unfold claimsValid
  split
  · trivial
  · refine ⟨nofun, fun now => ?_⟩
    change Later (if _ then _ else _)
    split_ifs <;> trivial

theorem first_checkJwks (signingInput : String) (sig : Bytes) (kid : String) (forceRefresh : Bool) :
    First (checkJwks std signingInput sig kid forceRefresh) := by
  intro a
  cases a <;> trivial

theorem later_checkJwks (signingInput : String) (sig : Bytes) (kid : String) :
    Later (checkJwks std signingInput sig kid true) :=
  ⟨nofun, first_checkJwks signingInput sig kid true⟩

theorem first_verifyRS256 (signingInput : String) (sig : Bytes) (kid : String) :
    First (verifyRS256 std v signingInput sig kid) := by
  unfold verifyRS256
  split
  · trivial
  · split_ifs
    · trivial
    · refine (first_checkJwks signingInput sig kid false).bind fun b => ?_
      cases b with
      | true => trivial
      | false => exact later_checkJwks signingInput sig kid

theorem first_verify (token : String) : First (verify std v token) := by
  unfold verify
  split
  · rename_i headerSeg payloadSeg sigSeg _
    cases (std.decodeString headerSeg).bind std.unmarshalHeader with
    | none => trivial
    | some hdr =>
      dsimp only
      by_cases halg : (!Text.equalFold hdr.alg v.alg) = true
      · rw [if_pos halg]
        trivial
      rw [if_neg halg]
      cases std.decodeString sigSeg with
      | none => trivial
      | some sig =>
        dsimp only
        split_ifs
        · trivial
        · exact (later_claimsValid _).first
        · refine (first_verifyRS256 _ _ _).bind fun b => ?_
          cases b with
          | true => exact later_claimsValid _
          | false => trivial
        · trivial
  · trivial

namespace Watch

/-- The cache knows of the latest fetch, and a call that may still make an unforced lookup has
fetched nothing. -/
structure Kept (w : Watch) : Prop where
  started : w.calls.shared.jwksFetched = true ↔ w.fetches ≠ []
  latest : w.fetches ≠ [] → ∃ f ∈ w.fetches, f.time = w.calls.shared.lastFetch
  last : ∀ f ∈ w.fetches, f.time ≤ w.calls.shared.lastFetch
  past : ∀ f ∈ w.fetches, f.time ≤ w.time
  known : ∀ f ∈ w.fetches, f.call < w.calls.parties.length
  placed : ∀ n (t : TokenCall), w.calls.parties[n]? = some t →
    (First t.prog ∧ n ∉ w.fetches.map (·.call)) ∨ Later t.prog

variable {w w' : Watch} {m : Crowd.Move String Input Empty}

theorem step_cases (h : w.step std v m = some w') :
    (w'.calls.shared = w.calls.shared ∧ w'.fetches = w.fetches ∧ w.time ≤ w'.time ∧
        ∀ q ∈ asks w.calls m, q.forceRefresh = false) ∨
      ∃ q, asks w.calls m = some q ∧ Fetches v w.calls.shared q.kid q.forceRefresh q.input.clock ∧
        w.time ≤ q.input.clock 0 ∧ q.input.clock 0 ≤ q.input.clock 1 ∧ w'.time = q.input.clock 1 ∧
        w'.calls.shared.jwksFetched = true ∧ w'.calls.shared.lastFetch = q.input.clock 1 ∧
        w'.fetches = w.fetches ++
          [⟨q.call, q.input.clock 1, decide (Unknown w.calls.shared q.kid)⟩] := by
  obtain ⟨time, htime, hmap⟩ := Option.bind_eq_some_iff.mp h
  obtain ⟨calls, hcalls, rfl⟩ := Option.map_eq_some_iff.mp hmap
  obtain ⟨j, s, p, rfl, hr, rfl⟩ | ⟨i, input, t, s, t', rfl, ht, hact, rfl⟩ | ⟨e, -⟩ :=
    Crowd.step_cases hcalls
  · cases hr
    cases htime
    exact .inl ⟨rfl, by simp [asks], le_rfl, by simp [asks]⟩
  · obtain ⟨o, k, hp, rfl, rfl⟩ := Thread.act_cases hact
    dsimp only [tick] at htime
    split_ifs at htime with hclock
    cases htime
    cases o with
    | now =>
      have hnone : asks w.calls (.act i input) = none := by simp [asks, ht, TokenCall.asks, hp]
      simp only [hnone, Option.bind_none, Option.toList_none, List.append_nil, Option.not_mem_none,
        false_imp_iff,
        implies_true, and_true, true_and]
      exact .inl ⟨rfl, hclock.1.trans hclock.2⟩
    | jwksKey kid forceRefresh =>
      have hask : asks w.calls (.act i input) = some ⟨i, kid, forceRefresh, input⟩ := by
        simp [asks, ht, TokenCall.asks, hp]
      simp only [hask, Option.bind_some, Ask.fetch]
      rcases jwksKey_cases (v := v) std w.calls.shared kid forceRefresh input.clock input.reply with
        ⟨hfetch, hshared⟩ | ⟨hfetch, hshared⟩
      · right
        refine ⟨_, rfl, hfetch, hclock.1, hclock.2, rfl, ?_, ?_, ?_⟩
        · exact (congrArg Jwks.jwksFetched hshared).trans (fetchLocked_marks _ _ _).1
        · exact (congrArg Jwks.lastFetch hshared).trans (fetchLocked_marks _ _ _).2
        · rw [if_pos hfetch]
          rfl
      · left
        refine ⟨hshared, ?_, hclock.1.trans hclock.2, ?_⟩
        · rw [if_neg hfetch]
          simp
        · intro q hq
          cases hq
          cases forceRefresh with
          | false => rfl
          | true => exact (hfetch (.inl rfl)).elim
  · exact e.elim

theorem Kept.placed_step (h : w.Kept) (hs : w.step std v m = some w') :
    w.calls.parties.length ≤ w'.calls.parties.length ∧
      (∀ q ∈ asks w.calls m, q.call < w.calls.parties.length ∧
        (q.forceRefresh = false → q.call ∉ w.fetches.map (·.call))) ∧
      ∀ n (t : TokenCall), w'.calls.parties[n]? = some t →
        (First t.prog ∧ n ∉ w'.fetches.map (·.call)) ∨ Later t.prog := by
  obtain ⟨time, -, hmap⟩ := Option.bind_eq_some_iff.mp hs
  obtain ⟨calls, hcalls, rfl⟩ := Option.map_eq_some_iff.mp hmap
  obtain ⟨job, s, p, rfl, hr, rfl⟩ | ⟨i, input, t, s, t', rfl, ht, hact, rfl⟩ | ⟨e, -⟩ :=
    Crowd.step_cases hcalls
  · cases hr
    refine ⟨by simp, by simp [asks], fun n t hn => ?_⟩
    simp only [asks, Option.bind_none, Option.toList_none, List.append_nil]
    by_cases hlt : n < w.calls.parties.length
    · rw [List.getElem?_append_left hlt] at hn
      exact h.placed n t hn
    · rw [List.getElem?_append_right (not_lt.mp hlt)] at hn
      obtain rfl := List.mem_singleton.mp (List.mem_of_getElem? hn)
      refine .inl ⟨first_verify job, fun hmem => ?_⟩
      obtain ⟨f, hf, rfl⟩ := List.mem_map.mp hmem
      exact hlt (h.known f hf)
  · obtain ⟨o, k, hp, rfl, rfl⟩ := Thread.act_cases hact
    have hlt : i < w.calls.parties.length := (List.getElem?_eq_some_iff.mp ht).1
    have hask : ∀ q ∈ asks w.calls (.act i input), q.call = i ∧ o = .jwksKey q.kid q.forceRefresh := by
      intro q hq
      cases o with
      | now => simp [asks, ht, TokenCall.asks, hp] at hq
      | jwksKey kid forceRefresh =>
        simp only [asks, ht, TokenCall.asks, hp, Option.bind_some, Option.map_some,
          Option.mem_some_iff] at hq
        subst hq
        exact ⟨rfl, rfl⟩
    have hplace := h.placed i t ht
    rw [hp] at hplace
    refine ⟨by simp, fun q hq => ?_, fun n t hn => ?_⟩
    · obtain ⟨rfl, rfl⟩ := hask q hq
      refine ⟨hlt, fun hforce => ?_⟩
      rcases hplace with ⟨-, hcall⟩ | hlater
      · exact hcall
      · exact (hlater.1 q.kid (by rw [hforce])).elim
    · rw [List.getElem?_set] at hn
      split_ifs at hn with hi
      · cases hn
        right
        rcases hplace with ⟨hfirst, -⟩ | hlater
        · exact hfirst _
        · exact hlater.2 _
      · refine (h.placed n t hn).imp_left fun hfirst => ⟨hfirst.1, ?_⟩
        rw [List.map_append, List.mem_append]
        rintro (hmem | hmem)
        · exact hfirst.2 hmem
        · obtain ⟨f, hf, rfl⟩ := List.mem_map.mp hmem
          obtain ⟨q, hq, hf⟩ := Option.bind_eq_some_iff.mp (Option.mem_toList.mp hf)
          unfold Ask.fetch at hf
          split_ifs at hf
          cases hf
          exact hi (hask q hq).1.symm
  · exact e.elim

theorem Kept.step (h : w.Kept) (hs : w.step std v m = some w') : w'.Kept := by
  obtain ⟨hlength, hcall, hplaced⟩ := h.placed_step hs
  rcases step_cases
    hs with ⟨hshared, hfetches, htime, -⟩ | ⟨q, hq, -, h0, h1, htime, hmark, hlast, hfetches⟩
  · constructor
    · rw [hshared, hfetches]
      exact h.started
    · rw [hshared, hfetches]
      exact h.latest
    · rw [hshared, hfetches]
      exact h.last
    · rw [hfetches]
      exact fun f hf => (h.past f hf).trans htime
    · rw [hfetches]
      exact fun f hf => (h.known f hf).trans_le hlength
    · exact hplaced
  · constructor
    · simp [hmark, hfetches]
    · intro _
      rw [hfetches, hlast]
      exact ⟨_, List.mem_append_right _ (List.mem_singleton_self _), rfl⟩
    · rw [hfetches, hlast]
      intro f hf
      rcases List.mem_append.mp hf with hf | hf
      · exact (h.past f hf).trans (h0.trans h1)
      · rw [List.mem_singleton.mp hf]
    · rw [hfetches, htime]
      intro f hf
      rcases List.mem_append.mp hf with hf | hf
      · exact (h.past f hf).trans (h0.trans h1)
      · rw [List.mem_singleton.mp hf]
    · rw [hfetches]
      intro f hf
      rcases List.mem_append.mp hf with hf | hf
      · exact (h.known f hf).trans_le hlength
      · rw [List.mem_singleton.mp hf]
        exact (hcall q hq).1.trans_le hlength
    · exact hplaced

theorem throttled_append {fetches : List Fetched} (h : Throttled v fetches) (f : Fetched) :
    Throttled v (fetches ++ [f]) ↔ f.call ∉ fetches.map (·.call) ∧
      ∀ a ∈ fetches, f.time - a.time < v.jwksMinWait → f.unknown = true := by
  constructor
  · rintro ⟨hapart, honce⟩
    rw [List.map_append, List.nodup_append] at honce
    refine ⟨fun hmem => honce.2.2 _ hmem _ (by simp) rfl, fun a ha => ?_⟩
    exact (List.pairwise_append.mp hapart).2.2 a ha f (by simp)
  · rintro ⟨hcall, hnear⟩
    constructor
    · refine List.pairwise_append.mpr ⟨h.apart, List.pairwise_singleton .., fun a ha b hb => ?_⟩
      rw [List.mem_singleton.mp hb]
      exact hnear a ha
    · rw [List.map_append, List.nodup_append]
      refine ⟨h.once, List.nodup_singleton _, fun a ha b hb heq => ?_⟩
      subst heq
      rw [List.map_cons, List.map_nil, List.mem_singleton] at hb
      subst hb
      exact hcall ha

theorem Kept.due (h : w.Kept) {clock : Clock}
    (hfree : w.calls.shared.jwksFetched = false ∨
      v.jwksMinWait ≤ Time.sub (clock 0) w.calls.shared.lastFetch)
    (h0 : w.time ≤ clock 0) (h1 : clock 0 ≤ clock 1) :
    ∀ a ∈ w.fetches, v.jwksMinWait ≤ clock 1 - a.time := by
  intro a ha
  have hfetched : w.calls.shared.jwksFetched = true := h.started.mpr (List.ne_nil_of_mem ha)
  have hwait := hfree.resolve_left (by simp [hfetched])
  obtain ⟨f, hf, htime⟩ := h.latest (List.ne_nil_of_mem ha)
  have hf' := h.past f hf
  have ha' := h.last a ha
  unfold Time.sub Time.minDuration at hwait
  omega

theorem throttled_step_iff (h : w.Kept) (ht : Throttled v w.fetches) (hs : w.step std v m = some w') :
    Throttled v w'.fetches ↔ w.Spared v m := by
  rcases step_cases hs with ⟨-, hfetches, -, hfree⟩ | ⟨q, hq, hfetch, h0, h1, -, -, -, hfetches⟩
  · rw [hfetches]
    refine iff_of_true ht fun q hq hforce => ?_
    rw [hfree q hq] at hforce
    cases hforce
  · rw [hfetches, throttled_append ht]
    have hspared : w.Spared v m ↔ (q.forceRefresh = true → q.call ∉ w.fetches.map (·.call) ∧
        (Unknown w.calls.shared q.kid ∨ (w.calls.shared.jwksFetched = true →
          v.jwksMinWait ≤ q.input.clock 1 - w.calls.shared.lastFetch))) := by
      simp [Spared, hq]
    rw [hspared]
    cases hforce : q.forceRefresh with
    | false =>
      obtain ⟨-, hwait⟩ := hfetch.resolve_left (by simp [hforce])
      refine iff_of_true ⟨((h.placed_step hs).2.1 q hq).2 hforce, fun a ha hnear => ?_⟩ nofun
      have hdue := h.due hwait h0 h1 a ha
      dsimp only at hnear
      omega
    | true =>
      simp only [true_imp_iff, decide_eq_true_eq]
      refine and_congr_right fun _ => ?_
      constructor
      · intro hnear
        by_cases hunknown : Unknown w.calls.shared q.kid
        · exact .inl hunknown
        · refine .inr fun hfetched => ?_
          obtain ⟨f, hf, htime⟩ := h.latest (h.started.mp hfetched)
          by_contra hlt
          exact hunknown (hnear f hf (by omega))
      · rintro (hunknown | hwait) a ha hnear
        · exact hunknown
        · have hlast := h.last a ha
          have := hwait (h.started.mpr (List.ne_nil_of_mem ha))
          omega

theorem throttled_of_step (hs : w.step std v m = some w') (h : Throttled v w'.fetches) :
    Throttled v w.fetches := by
  have hfetches : ∃ more, w'.fetches = w.fetches ++ more := by
    rcases step_cases hs with ⟨-, hfetches, -⟩ | ⟨q, -, -, -, -, -, -, -, hfetches⟩
    · exact ⟨[], by rw [hfetches, List.append_nil]⟩
    · exact ⟨_, hfetches⟩
  obtain ⟨more, hmore⟩ := hfetches
  rw [hmore] at h
  refine ⟨(List.pairwise_append.mp h.apart).1, ?_⟩
  have honce := h.once
  rw [List.map_append] at honce
  exact (List.nodup_append.mp honce).1

/-- The fetches are throttled exactly if every forced lookup is the first fetch of its call, and
is for an unknown key id or comes long enough after the latest fetch. -/
theorem fetches_throttled_iff (std : Primitives) (v : JwtVerifier) (start : ℤ)
    (ms : List (Crowd.Move String Input Empty)) (w : Watch)
    (hr : exec (Watch.step std v) { time := start } ms = some w) :
    Throttled v w.fetches ↔ Meets (Watch.step std v) (Watch.Spared v) { time := start } ms := by
  have hkept : Kept { time := start } := by
    constructor
    · simp
    · exact fun h => (h rfl).elim
    · exact fun f hf => by cases hf
    · exact fun f hf => by cases hf
    · exact fun f hf => by cases hf
    · exact fun n t ht => by cases ht
  have hinv : ∀ w m w', Kept w → Watch.step std v w m = some w' → Kept w' :=
    fun _ _ _ h hs => h.step hs
  have hiff : ∀ w m w', Kept w → Throttled v w.fetches → Watch.step std v w m = some w' →
      (Throttled v w'.fetches ↔ w.Spared v m) := fun _ _ _ h ht hs => throttled_step_iff h ht hs
  have hnone : Throttled v [] := ⟨.nil, List.nodup_nil⟩
  exact exec_iff_meets (P := fun w => Throttled v w.fetches) hinv hiff
    (fun _ _ _ _ hs => throttled_of_step hs)
    hr hkept hnone

def offerAt (t : ℤ) (doc : List JWK) : Input :=
  { clock := fun _ => t, reply := .response 200 (some doc) }

/-- Two calls a second apart, the second with a wrong signature under the known key id. -/
def wrongSignature : List (Crowd.Move String Input Empty) :=
  [.enter "a.p.K", .act 0 (offerAt 0 firstDoc), .enter "a.p.X", .act 1 (offerAt Time.second firstDoc),
    .act 1 (offerAt Time.second firstDoc)]

/-- The first call of all, for a key id that the document does not list. -/
def unlisted : List (Crowd.Move String Input Empty) :=
  [.enter "b.p.K", .act 0 (offerAt 0 firstDoc), .act 0 (offerAt 0 firstDoc)]

/-- A known key id makes a fetch a second after another, and one call makes two. -/
theorem fetches_not_throttled :
    (∃ w, exec (Watch.step plain remote) { time := 0 } wrongSignature = some w ∧
        w.fetches = [⟨0, 0, true⟩, ⟨1, Time.second, false⟩] ∧ ¬ Throttled remote w.fetches) ∧
      ∃ w, exec (Watch.step plain remote) { time := 0 } unlisted = some w ∧
        w.fetches = [⟨0, 0, true⟩, ⟨0, 0, true⟩] ∧ ¬ Throttled remote w.fetches := by
  constructor
  · have hrun : (exec (Watch.step plain remote) { time := 0 } wrongSignature).map (·.fetches) =
        some [⟨0, 0, true⟩, ⟨1, Time.second, false⟩] := by decide +kernel
    obtain ⟨w, hw, hfetches⟩ := Option.map_eq_some_iff.mp hrun
    refine ⟨w, hw, hfetches, fun h => ?_⟩
    have hapart := h.apart
    rw [hfetches] at hapart
    have hfalse := (List.pairwise_cons.mp hapart).1 _ (List.mem_singleton_self _) (by decide +kernel)
    cases hfalse
  · have hrun : (exec (Watch.step plain remote) { time := 0 } unlisted).map (·.fetches) =
        some [⟨0, 0, true⟩, ⟨0, 0, true⟩] := by decide +kernel
    obtain ⟨w, hw, hfetches⟩ := Option.map_eq_some_iff.mp hrun
    refine ⟨w, hw, hfetches, fun h => ?_⟩
    have honce := h.once
    rw [hfetches] at honce
    exact absurd honce (by decide)

/-- A call that is accepted at once, and one for an unknown key id a second later. -/
def rightUse : List (Crowd.Move String Input Empty) :=
  [.enter "a.p.K", .act 0 (offerAt 0 firstDoc), .enter "b.p.K", .act 1 (offerAt Time.second firstDoc),
    .act 1 (offerAt Time.second firstDoc)]

instance (w : Watch) (m : Crowd.Move String Input Empty) : Decidable (w.Spared v m) :=
  inferInstanceAs (Decidable (∀ q ∈ asks w.calls m, _))

theorem fetches_throttled_rightUse :
    ∃ w, exec (Watch.step plain remote) { time := 0 } rightUse = some w ∧
      w.fetches = [⟨0, 0, true⟩, ⟨1, Time.second, true⟩] ∧ Throttled remote w.fetches := by
  have hrun : (exec (Watch.step plain remote) { time := 0 } rightUse).map (·.fetches) =
      some [⟨0, 0, true⟩, ⟨1, Time.second, true⟩] := by decide +kernel
  obtain ⟨w, hw, hfetches⟩ := Option.map_eq_some_iff.mp hrun
  refine ⟨w, hw, hfetches, (fetches_throttled_iff plain remote 0 rightUse w hw).mpr ?_⟩
  decide +kernel

end Watch
end ReverseProxyLb.Middleware.Jwt
