import ReverseProxyLb.Cache.Middleware

/-! `Auth` rejects a request without a valid credential before it reaches the cache, which
takes a request for authenticated when it carries an `Authorization` header. API keys are
elsewhere. -/
namespace ReverseProxyLb.Cache
open Text Lib

inductive AuthType where
  | basic | apikey | jwt
  deriving Repr, DecidableEq

structure AuthConfig where
  type : AuthType
  users : List (String × String) := []
  header : String := ""
  apiKeys : List String := []

/-- The user, the key or the token a request is authenticated by. -/
inductive Credential where
  | user (name : String)
  | key (value : String)
  | token (value : String)
  deriving Repr, DecidableEq

def equalFold (a b : String) : Bool := a.toList.map Char.toLower == b.toList.map Char.toLower

/-- What follows a scheme name in an `Authorization` header. -/
def afterScheme (scheme auth : String) : Option String :=
  if equalFold (String.ofList (auth.toList.take scheme.toList.length)) scheme then
    some (String.ofList (auth.toList.drop scheme.toList.length))
  else none

/-- `strings.Cut` at a colon. -/
def cutColon (s : String) : Option (String × String) :=
  if ':' ∈ s.toList then
    some (String.ofList (s.toList.takeWhile (· ≠ ':')),
      String.ofList ((s.toList.dropWhile (· ≠ ':')).drop 1))
  else none

/-- `r.BasicAuth()`; `decode` is the base64 decoding. -/
def basicAuth (decode : String → Option String) (r : Request) : Option (String × String) :=
  let auth := r.header.get "Authorization"
  if auth = "" then none else (afterScheme "Basic " auth).bind fun c => (decode c).bind cutColon

/-- `bearerToken`: nothing when nothing follows the scheme. -/
def bearerToken (r : Request) : Option String :=
  let h := r.header.get "Authorization"
  if h.toList.length ≤ "Bearer ".toList.length then none
  else (afterScheme "Bearer " h).map trimSpace

/-- What stands between the clients and the cache: `Auth`, and the middleware after it, which may
edit the request. -/
structure Gate where
  auth : AuthConfig
  decode : String → Option String
  verify : String → Bool
  edit : Request → Request

namespace Gate

def keyHeader (g : Gate) : String := if g.auth.header = "" then "X-API-Key" else g.auth.header

/-- The credential `Auth` lets the request pass with. -/
def accepted (g : Gate) (r : Request) : Option Credential :=
  match g.auth.type with
  | .basic =>
    (basicAuth g.decode r).bind fun (user, pass) =>
      if g.auth.users.lookup user = some pass then some (.user user) else none
  | .apikey =>
    let got := r.header.get g.keyHeader
    if got ≠ "" ∧ got ∈ g.auth.apiKeys then some (.key got) else none
  | .jwt =>
    (bearerToken r).bind fun token => if g.verify token then some (.token token) else none

def ReadsAuthorization (g : Gate) : Prop :=
  g.auth.type = .apikey → canonicalHeaderKey g.keyHeader = "Authorization"

theorem accepted_authorization {g : Gate} (h : g.ReadsAuthorization) {r : Request} {c : Credential}
    (ha : g.accepted r = some c) : r.header.get "Authorization" ≠ "" := by
  unfold accepted at ha
  cases ht : g.auth.type with
  | basic =>
    rw [ht] at ha
    obtain ⟨pair, hpair, _⟩ := Option.bind_eq_some_iff.mp ha
    intro hempty
    simp [basicAuth, hempty] at hpair
  | apikey =>
    rw [ht] at ha
    have hkey := h ht
    dsimp only at ha
    split at ha
    · rename_i hgot
      have hsame : r.header.get g.keyHeader = r.header.get "Authorization" := by
        unfold Header.get Header.values
        rw [hkey]
        rfl
      rw [← hsame]
      exact hgot.1
    · exact absurd ha (by simp)
  | jwt =>
    rw [ht] at ha
    obtain ⟨token, htoken, _⟩ := Option.bind_eq_some_iff.mp ha
    intro hempty
    simp [bearerToken, hempty] at htoken

/-- A client's request, or the end of a handler call. -/
inductive Incoming where
  | request (r : Request) (now : ℤ)
  | response (i : ℕ) (cw : Capture) (now : ℤ)
  | failure (i : ℕ)

def step (g : Gate) (s : Middleware) : Incoming → Option Middleware
  | .request r now =>
    match g.accepted r with
    | some _ => s.step (.request (g.edit r) now)
    | none => some s
  | .response i cw now => s.step (.response i cw now)
  | .failure i => s.step (.failure i)

theorem step_cases {g : Gate} {s s' : Middleware} {e : Incoming} (hs : g.step s e = some s') :
    s' = s ∨ ∃ e', s.step e' = some s' ∧ ∀ i cw t, e' = .response i cw t → e = .response i cw t := by
  cases e with
  | request r now =>
    simp only [step] at hs
    split at hs
    · exact .inr ⟨_, hs, fun _ _ _ he => nomatch he⟩
    · exact .inl (Option.some.inj hs).symm
  | response i cw now =>
    refine .inr ⟨.response i cw now, hs, fun _ _ _ he => ?_⟩
    obtain ⟨rfl, rfl, rfl⟩ := Event.response.inj he
    rfl
  | failure i => exact .inr ⟨.failure i, hs, fun _ _ _ he => nomatch he⟩

theorem faithful_run {g : Gate} {cfg : CacheConfig} {es : List Incoming} {s : Middleware}
    (hr : exec g.step (Middleware.init cfg) es = some s) : Middleware.Faithful cfg s := by
  apply exec_keeps _ hr (Middleware.faithful_init cfg)
  intro s e s' hi hs
  obtain rfl | ⟨e', hs', -⟩ := step_cases hs
  · exact hi
  · exact hi.step hs'

end Gate

/-- A directive `s-maxage=N`. -/
def isSMaxAge (d : String) : Bool := ((after? "s-maxage=" d).bind atoi).isSome

def NamesSharing (v : String) : Prop := "public" ∈ directives v ∨ ∃ d ∈ directives v, isSMaxAge d

/-- Where the value sets an age and mentions `s-maxage` anywhere, it is by the directive. -/
def MentionsDirective (v : String) : Prop :=
  (parseCacheControl v).maxAgeSet = true → contains (toLower v) "s-maxage" = true →
    ∃ d ∈ directives v, isSMaxAge d

theorem readDirective_isPublic (acc : CacheControl × ℤ × ℤ) (d : String)
    (h : (readDirective acc d).1.isPublic = true) : acc.1.isPublic = true ∨ d = "public" := by
  unfold readDirective at h
  dsimp only at h
  split_ifs at h with h₁ h₂ h₃ h₄
  · exact Or.inl h
  · exact Or.inl h
  · exact Or.inl h
  · exact Or.inr h₄
  · left
    split at h
    · exact h
    · split at h
      · exact h
      · split at h
        · split at h
          · split at h <;> exact h
          · exact h
        · exact h

theorem directives_isPublic (ds : List String) (acc : CacheControl × ℤ × ℤ)
    (h : (ds.foldl readDirective acc).1.isPublic = true) :
    acc.1.isPublic = true ∨ "public" ∈ ds := by
  induction ds generalizing acc with
  | nil => exact Or.inl h
  | cons d ds ih =>
    rcases ih _ h with h' | h'
    · rcases readDirective_isPublic acc d h' with h'' | rfl
      · exact Or.inl h''
      · exact Or.inr (List.mem_cons_self ..)
    · exact Or.inr (List.mem_cons_of_mem _ h')

theorem parseCacheControl_isPublic {v : String} (h : (parseCacheControl v).isPublic = true) :
    "public" ∈ directives v := by
  unfold parseCacheControl at h
  dsimp only at h
  have hfold : ((directives v).foldl readDirective ({}, -1, -1)).1.isPublic = true := by
    split_ifs at h <;> exact h
  rcases directives_isPublic _ _ hfold with h' | h'
  · exact absurd h' (by decide)
  · exact h'

theorem explicitlyPublic_names {v : String} (hv : MentionsDirective v)
    (h : explicitlyPublic v = true) : NamesSharing v := by
  unfold explicitlyPublic at h
  rw [Bool.or_eq_true, Bool.and_eq_true] at h
  rcases h with h | ⟨hset, hcontains⟩
  · exact Or.inl (parseCacheControl_isPublic h)
  · exact Or.inr (hv hset hcontains)

/-- The response's `Cache-Control` mentions `s-maxage` only by the directive. -/
def Directed : Gate.Incoming → Prop
  | .response _ cw _ => MentionsDirective (cw.header.get "Cache-Control")
  | _ => True

instance decidableMentionsDirective (v : String) : Decidable (MentionsDirective v) :=
  inferInstanceAs (Decidable (_ → _ → ∃ d ∈ directives v, isSMaxAge d = true))

instance decidableDirected : (e : Gate.Incoming) → Decidable (Directed e)
  | .request _ _ => isTrue trivial
  | .response _ cw _ => decidableMentionsDirective (cw.header.get "Cache-Control")
  | .failure _ => isTrue trivial

def StoresDirected (s : Middleware) : Prop :=
  ∀ p cw t, Access.store p cw t ∈ s.calls → MentionsDirective (cw.header.get "Cache-Control")

theorem storesDirected_step {g : Gate} {s s' : Middleware} {e : Gate.Incoming}
    (h : StoresDirected s) (hok : Directed e) (hs : g.step s e = some s') : StoresDirected s' := by
  intro p cw t hc
  obtain rfl | ⟨e', hs', hresponse⟩ := Gate.step_cases hs
  · exact h p cw t hc
  · obtain hold | ⟨i, he⟩ := Middleware.store_of_step hs' hc
    · exact h p cw t hold
    · rw [hresponse i cw t he] at hok
      exact hok

/-- Where credentials are read from `Authorization`, an authenticated request is answered from the
cache only with responses that name a directive which lets them be shared. -/
theorem credentials_not_shared (g : Gate) (cfg : CacheConfig) (es : List Gate.Incoming)
    (s : Middleware) (hreads : g.ReadsAuthorization)
    (hedit : ∀ r : Request, r.header.get "Authorization" ≠ "" →
      (g.edit r).header.get "Authorization" ≠ "")
    (hm : Meets g.step (fun _ e => Directed e) (Middleware.init cfg) es)
    (hr : exec g.step (Middleware.init cfg) es = some s)
    (p q : Request) (c c' : Credential) (cw : Capture) (t now : ℤ) (e : CacheEntry) :
    g.accepted p = some c → g.accepted q = some c' → c ≠ c' →
    Access.store (g.edit p) cw t ∈ s.calls →
    entryFromCapture (newCache cfg).defaultTTL (g.edit p) (requestKey (g.edit p)) cw t = some e →
    s.answered (g.edit q) now = some e →
    ∃ line ∈ cw.header.values "Cache-Control", NamesSharing line := by
  intro _ hq _ hstore he ha
  have hdirected : StoresDirected s :=
    exec_invariant (fun _ _ _ hi hok hs => storesDirected_step hi hok hs) hm hr
      (by simp [StoresDirected, Middleware.init])
  obtain ⟨_, _, hpub⟩ := Middleware.answered_live (Gate.faithful_run hr) ha
  have hpublic := hpub (hedit q (Gate.accepted_authorization hreads hq))
  rw [(entryFromCapture_madeFrom he).isPublic_eq] at hpublic
  have hnames := explicitlyPublic_names (hdirected _ _ _ hstore) hpublic
  unfold Header.get at hnames hpublic
  cases hv : cw.header.values "Cache-Control" with
  | nil =>
    rw [hv] at hpublic
    exact absurd hpublic (by decide +kernel)
  | cons line lines =>
    rw [hv] at hnames
    exact ⟨line, List.mem_cons_self .., hnames⟩

/-- A request for the account page with the given header field. -/
def accountPage (name value : String) : Request :=
  { method := "GET", host := "shop", requestURI := "/account",
    header := Header.ofList [(name, [value])] }

/-- Two users with basic credentials, in an encoding that is its own decoding. -/
def twoUsers : Gate where
  auth := { type := .basic, users := [("alice", "a"), ("bob", "b")] }
  decode := some
  verify := fun _ => false
  edit := id

def twoKeys : Gate where
  auth := { type := .apikey, apiKeys := ["k1", "k2"] }
  decode := some
  verify := fun _ => false
  edit := id

def publicPage : List Gate.Incoming :=
  [.request (accountPage "Authorization" "Basic alice:a") 0,
    .response 0 { header := Header.ofList [("Cache-Control", ["max-age=9, public"])] } 1]

/-- Bob is answered with the response to Alice, which says that it is public. -/
theorem credentials_not_shared_public :
    ∃ s e, exec twoUsers.step (Middleware.init {}) publicPage = some s ∧
      s.answered (accountPage "Authorization" "Basic bob:b") 2 = some e ∧
      ∃ line ∈ (Header.ofList [("Cache-Control", ["max-age=9, public"])]).values "Cache-Control",
        NamesSharing line :=
  ⟨_, _, rfl, rfl, credentials_not_shared twoUsers {} publicPage _
    (fun h => absurd h (by decide)) (fun _ h => h) (by decide +kernel) rfl
    (accountPage "Authorization" "Basic alice:a") (accountPage "Authorization" "Basic bob:b")
    (.user "alice") (.user "bob") _ 1 2 _ (by decide +kernel) (by decide +kernel) (by decide)
    (List.mem_append_right _ (List.mem_singleton.mpr rfl)) rfl rfl⟩

/-- With API keys in their default header the response to one key's request, which has
no `Cache-Control` at all, answers the other's. -/
theorem apikey_response_shared :
    ∃ s e, exec twoKeys.step (Middleware.init {})
        [.request (accountPage "X-Api-Key" "k1") 0, .response 0 { body := "balance of k1" } 1] =
          some s ∧
      twoKeys.accepted (accountPage "X-Api-Key" "k1") = some (.key "k1") ∧
      twoKeys.accepted (accountPage "X-Api-Key" "k2") = some (.key "k2") ∧
      Access.store (accountPage "X-Api-Key" "k1") { body := "balance of k1" } 1 ∈ s.calls ∧
      entryFromCapture (newCache {}).defaultTTL (accountPage "X-Api-Key" "k1")
        (requestKey (accountPage "X-Api-Key" "k1")) { body := "balance of k1" } 1 = some e ∧
      s.answered (accountPage "X-Api-Key" "k2") 2 = some e ∧
      ({ body := "balance of k1" } : Capture).header.values "Cache-Control" = [] :=
  ⟨_, _, rfl, by decide +kernel, by decide +kernel,
    List.mem_append_right _ (List.mem_singleton.mpr rfl), rfl, rfl, rfl⟩

end ReverseProxyLb.Cache
