import ReverseProxyLb.Base.Text
import ReverseProxyLb.Base.Time
import ReverseProxyLb.Lib.Threads

/-! An RS256 signature is checked under a key of the configuration or of a cache that is filled
from a JWKS endpoint. A call of `verify` is a program that asks for lookups, each under the lock,
and for the time. -/
namespace ReverseProxyLb.Middleware.Jwt
open Lib Text

/-- `rsa.PublicKey`. -/
structure PublicKey where
  n : ℕ
  e : ℤ
  deriving DecidableEq, Repr

abbrev Bytes := List UInt8

/-- The fields of a token's header that are read. -/
structure TokenHeader where
  alg : String
  kid : String

/-- The times among a token's claims; `none` is a claim that is absent. -/
structure Claims where
  exp : Option ℤ
  nbf : Option ℤ

/-- What the standard library computes; `none` is an error. -/
structure Primitives where
  /-- `base64.RawURLEncoding.DecodeString` -/
  decodeString : String → Option Bytes
  unmarshalHeader : Bytes → Option TokenHeader
  unmarshalClaims : Bytes → Option Claims
  hmac : (secret input : String) → Bytes
  sha256 : String → Bytes
  verifyPKCS1v15 : PublicKey → (digest sig : Bytes) → Bool
  parseRSAPublicKeyPEM : String → Option PublicKey

/-- The part of `jwtVerifier` that does not change. -/
structure JwtVerifier where
  alg : String
  secret : String := ""
  pubKey : Option PublicKey := none
  jwksURL : String := ""
  jwksMinWait : ℤ := 60 * Time.second

structure JwtConfig where
  jwtAlg : String := ""
  jwtSecret : String := ""
  jwtPublicKey : String := ""
  jwksURL : String := ""

structure JWK where
  kty : String
  kid : String
  n : String
  e : String
  deriving DecidableEq, Repr

/-- What comes of a request to the JWKS endpoint: `none` is a body that does not decode. -/
inductive Reply where
  | failed
  | response (statusCode : ℤ) (doc : Option (List JWK))

def Reply.received : Reply → Option (List JWK)
  | .failed => none
  | .response statusCode doc => if statusCode = 200 then doc else none

/-- The part of `jwtVerifier` that its lock guards, and the documents received so far. -/
structure Jwks where
  keys : List (String × PublicKey) := []
  lastFetch : ℤ := 0
  jwksFetched : Bool := false
  docs : List (List JWK) := []

variable (std : Primitives) (v : JwtVerifier)

def newJWTVerifier (cfg : JwtConfig) : JwtVerifier :=
  let alg := toUpper (trimSpace cfg.jwtAlg)
  let alg := if alg = "" then "HS256" else alg
  let pem := trimSpace cfg.jwtPublicKey
  { alg := alg
    secret := cfg.jwtSecret
    jwksURL := trimSpace cfg.jwksURL
    pubKey := if alg = "RS256" ∧ pem ≠ "" then std.parseRSAPublicKeyPEM pem else none }

def bigEndian (bs : Bytes) : ℕ := bs.foldl (fun n b => 256 * n + b.toNat) 0

/-- `int(e)` of a `uint64`. -/
def toInt (e : ℕ) : ℤ := if e < 2 ^ 63 then e else e - 2 ^ 64

/-- The outer `none` is the panic of `eBuf[8-len(eBytes):]` for an exponent of more than eight
bytes, the inner one an error. -/
def jwkToRSA (nB64 eB64 : String) : Option (Option PublicKey) :=
  match std.decodeString (trimRight nB64 '='), std.decodeString (trimRight eB64 '=') with
  | some nBytes, some eBytes =>
    if nBytes.length = 0 ∨ eBytes.length = 0 then some none
    else if 8 < eBytes.length then none
    else if bigEndian eBytes = 0 then some none
    else some (some ⟨bigEndian nBytes, toInt (bigEndian eBytes)⟩)
  | _, _ => some none

/-- `keys[kid] = pub`. -/
def putKey (keys : List (String × PublicKey)) (kid : String) (pub : PublicKey) :
    List (String × PublicKey) :=
  keys.filter (·.1 ≠ kid) ++ [(kid, pub)]

/-- The loop of `fetchLocked` over the keys of a document; `none` is a panic. -/
def collect : List JWK → List (String × PublicKey) → Option (List (String × PublicKey))
  | [], keys => some keys
  | k :: ks, keys =>
    if !equalFold k.kty "RSA" then collect ks keys
    else match jwkToRSA std k.n k.e with
      | none => none
      | some none => collect ks keys
      | some (some pub) => collect ks (putKey keys k.kid pub)

/-- `fetchLocked`, and whether it returns. -/
def fetchLocked (s : Jwks) (now : ℤ) (reply : Reply) : Jwks × Bool :=
  let s := { s with lastFetch := now, jwksFetched := true }
  match reply with
  | .failed => (s, true)
  | .response statusCode doc =>
    if statusCode ≠ 200 then (s, true)
    else match doc with
      | none => (s, true)
      | some doc =>
        let s := { s with docs := s.docs ++ [doc] }
        match collect std doc [] with
        | none => (s, false)
        | some keys => if 0 < keys.length then ({ s with keys := keys }, true) else (s, true)

def lookupLocked (s : Jwks) (kid : String) : Option PublicKey :=
  if kid ≠ "" then (s.keys.find? (·.1 = kid)).map (·.2)
  else match s.keys with
    | [(_, k)] => some k
    | _ => none

/-- `jwksKey`, with the readings of its clock and what comes of a request. The outer `none` is a
panic, which the deferred unlock survives. -/
def jwksKey (s : Jwks) (kid : String) (forceRefresh : Bool) (clock : Clock) (reply : Reply) :
    Jwks × Option (Option PublicKey) :=
  match if forceRefresh then none else lookupLocked s kid with
  | some k => (s, some (some k))
  | none =>
    if forceRefresh ∨ !s.jwksFetched ∨ v.jwksMinWait ≤ Time.sub (clock 0) s.lastFetch then
      match fetchLocked std s (clock 1) reply with
      | (s, true) => (s, some (lookupLocked s kid))
      | (s, false) => (s, none)
    else (s, some (lookupLocked s kid))

inductive TokenOp where
  | jwksKey (kid : String) (forceRefresh : Bool)
  | now

abbrev TokenAns : TokenOp → Type
  | .jwksKey _ _ => Option (Option PublicKey)
  | .now => ℤ

abbrev TokenProg := Prog TokenOp TokenAns Empty Empty

abbrev askKey (kid : String) (forceRefresh : Bool) : TokenProg (Option (Option PublicKey)) :=
  Prog.perform (TokenOp.jwksKey kid forceRefresh)

abbrev askNow : TokenProg ℤ := Prog.perform TokenOp.now

def claimsValid (payloadSeg : String) : TokenProg Bool :=
  match (std.decodeString payloadSeg).bind std.unmarshalClaims with
  | none => pure false
  | some claims => do
    let now ← askNow
    let now := Time.unix now
    if claims.exp.any (· ≤ now) then pure false
    else if claims.nbf.any (now < ·) then pure false
    else pure true

def check (signingInput : String) (sig : Bytes) (k : PublicKey) : Bool :=
  std.verifyPKCS1v15 k (std.sha256 signingInput) sig

/-- `v.jwksKey(kid, forceRefresh)` and the check of the key it returns. -/
def checkJwks (signingInput : String) (sig : Bytes) (kid : String) (forceRefresh : Bool) :
    TokenProg Bool := do
  match ← askKey kid forceRefresh with
  | none => .panic
  | some k => pure (k.any (check std signingInput sig))

def verifyRS256 (signingInput : String) (sig : Bytes) (kid : String) : TokenProg Bool :=
  match v.pubKey with
  | some k => pure (check std signingInput sig k)
  | none =>
    if v.jwksURL = "" then pure false
    else do
      if ← checkJwks std signingInput sig kid false then pure true
      else checkJwks std signingInput sig kid true

def verify (token : String) : TokenProg Bool :=
  match split token '.' with
  | [headerSeg, payloadSeg, sigSeg] =>
    match (std.decodeString headerSeg).bind std.unmarshalHeader with
    | none => pure false
    | some hdr =>
      if !equalFold hdr.alg v.alg then pure false
      else
        let signingInput := headerSeg ++ "." ++ payloadSeg
        match std.decodeString sigSeg with
        | none => pure false
        | some sig =>
          if v.alg = "HS256" then
            if sig ≠ std.hmac v.secret signingInput then pure false else claimsValid std payloadSeg
          else if v.alg = "RS256" then do
            if ← verifyRS256 std v signingInput sig hdr.kid then claimsValid std payloadSeg
            else pure false
          else pure false
  | _ => pure false

/-- What the environment gives an operation. -/
structure Input where
  clock : Clock := fun _ => 0
  reply : Reply := .failed

def serve (s : Jwks) : (o : TokenOp) → Input → Jwks × TokenAns o
  | .jwksKey kid forceRefresh, i => jwksKey std v s kid forceRefresh i.clock i.reply
  | .now, i => (s, i.clock 0)

/-- A call of `verify`. -/
abbrev TokenCall := Thread String Jwks TokenOp TokenAns Bool

def tokenRules : Crowd.Rules Jwks TokenCall String Input Empty :=
  Thread.rules (verify std v) (serve std v) fun _ e => e.elim

def usable (doc : List JWK) : List (String × PublicKey) :=
  doc.filterMap fun k =>
    if equalFold k.kty "RSA" then (jwkToRSA std k.n k.e).bind fun pub => pub.map (k.kid, ·) else none

def latest (docs : List (List JWK)) : Option (List JWK) :=
  docs.reverse.find? fun doc => !(usable std doc).isEmpty

def Lists (doc : List JWK) (kid : String) (k : PublicKey) : Prop :=
  if kid = "" then ∃ kid', usable std doc = [(kid', k)] else (kid, k) ∈ usable std doc

/-- No RSA key has an exponent of more than eight bytes, and no two usable keys have the same id.
-/
structure Regular (doc : List JWK) : Prop where
  short : ∀ k ∈ doc, equalFold k.kty "RSA" → jwkToRSA std k.n k.e ≠ none
  distinct : ((usable std doc).map (·.1)).Nodup

variable {std v} {s : Jwks} {kid : String} {k : PublicKey}

theorem usable_cons (j : JWK) (doc : List JWK) :
    usable std (j :: doc) = usable std [j] ++ usable std doc := by
  unfold usable
  rw [← List.filterMap_append]
  rfl

theorem putKey_of_fresh {keys : List (String × PublicKey)} {pub : PublicKey}
    (h : kid ∉ keys.map (·.1)) : putKey keys kid pub = keys ++ [(kid, pub)] := by
  unfold putKey
  rw [List.filter_eq_self.mpr]
  intro p hp
  rw [decide_eq_true_iff]
  rintro rfl
  exact h (List.mem_map_of_mem hp)

theorem collect_regular {doc : List JWK} {keys : List (String × PublicKey)}
    (hshort : ∀ k ∈ doc, equalFold k.kty "RSA" → jwkToRSA std k.n k.e ≠ none)
    (hd : ((keys ++ usable std doc).map (·.1)).Nodup) :
    collect std doc keys = some (keys ++ usable std doc) := by
  induction doc generalizing keys with
  | nil => simp [collect, usable]
  | cons j doc ih =>
    have hrest : ∀ k ∈ doc, equalFold k.kty "RSA" → jwkToRSA std k.n k.e ≠ none :=
      fun k hk => hshort k (List.mem_cons_of_mem _ hk)
    have hj := hshort j (List.mem_cons_self ..)
    rw [usable_cons, ← List.append_assoc] at hd ⊢
    rw [← ih hrest hd, collect]
    cases hkty : equalFold j.kty "RSA" with
    | false => simp [usable, hkty]
    | true =>
      cases hjwk : jwkToRSA std j.n j.e with
      | none => exact (hj hkty hjwk).elim
      | some pub =>
        cases pub with
        | none => simp [usable, hkty, hjwk]
        | some pub =>
          have hone : usable std [j] = [(j.kid, pub)] := by simp [usable, hkty, hjwk]
          rw [hone] at hd ⊢
          rw [← putKey_of_fresh]
          · rfl
          · rw [List.map_append, List.map_append, List.append_assoc] at hd
            intro hmem
            exact (List.nodup_append.mp hd).2.2 _ hmem _ (by simp) rfl

theorem latest_append (docs : List (List JWK)) (doc : List JWK) :
    latest std (docs ++ [doc]) = if (usable std doc).isEmpty then latest std docs else some doc := by
  unfold latest
  rw [List.reverse_append]
  cases h : (usable std doc).isEmpty <;> simp [h]

def Current (std : Primitives) (s : Jwks) : Prop :=
  s.keys = ((latest std s.docs).map (usable std)).getD []

theorem docs_fetchLocked (s : Jwks) (now : ℤ) (reply : Reply) :
    (fetchLocked std s now reply).1.docs = s.docs ++ reply.received.toList := by
  unfold fetchLocked Reply.received
  cases reply with
  | failed => simp
  | response statusCode doc =>
    by_cases hstatus : statusCode = 200
    · cases doc with
      | none => simp [hstatus]
      | some doc =>
        simp only [hstatus, ne_eq, not_true_eq_false, if_false, if_true]
        cases collect std doc [] with
        | none => rfl
        | some keys =>
          dsimp only
          split_ifs <;> rfl
    · simp [hstatus]

theorem jwksKey_eq (std : Primitives) (v : JwtVerifier) (s : Jwks) (kid : String) (forceRefresh : Bool)
    (clock : Clock) (reply : Reply) :
    jwksKey std v s kid forceRefresh clock reply = (s, some (lookupLocked s kid)) ∨
      ∃ s', (fetchLocked std s (clock 1) reply).1 = s' ∧
        (jwksKey std v s kid forceRefresh clock reply = (s', some (lookupLocked s' kid)) ∨
          jwksKey std v s kid forceRefresh clock reply = (s', none)) := by
  unfold jwksKey
  split
  · rename_i k hk
    split_ifs at hk
    rw [← hk]
    exact .inl rfl
  · split_ifs
    · right
      split
      · rename_i s' hs'
        exact ⟨s', congrArg Prod.fst hs', .inl rfl⟩
      · rename_i s' hs'
        exact ⟨s', congrArg Prod.fst hs', .inr rfl⟩
    · exact .inl rfl

theorem docs_jwksKey (s : Jwks) (kid : String) (forceRefresh : Bool) (clock : Clock) (reply : Reply) :
    s.docs ⊆ (jwksKey std v s kid forceRefresh clock reply).1.docs := by
  obtain h | ⟨s', rfl, h | h⟩ := jwksKey_eq std v s kid forceRefresh clock reply <;> rw [h]
  · exact List.Subset.refl _
  all_goals
    rw [docs_fetchLocked]
    exact List.subset_append_left ..

theorem Current.fetchLocked (h : Current std s) {now : ℤ} {reply : Reply}
    (hr : ∀ doc ∈ reply.received, Regular std doc) : Current std (fetchLocked std s now reply).1 := by
  unfold Jwt.fetchLocked
  cases reply with
  | failed => exact h
  | response statusCode doc =>
    by_cases hstatus : statusCode = 200
    · simp only [hstatus, ne_eq, not_true_eq_false, if_false]
      cases doc with
      | none => exact h
      | some doc =>
        have hdoc : Regular std doc := hr doc (by simp [Reply.received, hstatus])
        have hcollect : collect std doc [] = some (usable std doc) :=
          collect_regular hdoc.short hdoc.distinct
        simp only [hcollect]
        unfold Current at h ⊢
        cases hu : usable std doc with
        | nil => simp [latest_append, hu, h]
        | cons p ps => simp [latest_append, hu]
    · simp only [ne_eq, hstatus, not_false_eq_true, if_true]
      exact h

theorem Current.lookupLocked (h : Current std s) (hk : lookupLocked s kid = some k) :
    ∃ doc, latest std s.docs = some doc ∧ Lists std doc kid k := by
  unfold Current at h
  unfold Jwt.lookupLocked at hk
  cases hl : latest std s.docs with
  | none =>
    rw [hl] at h
    change s.keys = [] at h
    rw [h] at hk
    split_ifs at hk
    cases hk
  | some doc =>
    rw [hl] at h
    change s.keys = usable std doc at h
    refine ⟨doc, rfl, ?_⟩
    unfold Lists
    by_cases hkid : kid = ""
    · rw [if_neg (not_not.mpr hkid)] at hk
      rw [if_pos hkid, ← h]
      split at hk
      · rename_i kid' k' hkeys
        obtain rfl : k' = k := Option.some.inj hk
        exact ⟨kid', hkeys⟩
      · cases hk
    · rw [if_pos hkid] at hk
      rw [if_neg hkid, ← h]
      obtain ⟨p, hp, rfl⟩ := Option.map_eq_some_iff.mp hk
      have hfound := List.find?_some hp
      rw [decide_eq_true_iff] at hfound
      rw [← hfound]
      exact List.mem_of_find?_eq_some hp

def Right (std : Primitives) (s : Jwks) : (o : TokenOp) → TokenAns o → Prop
  | .jwksKey kid _, some (some k) => ∃ doc, latest std s.docs = some doc ∧ Lists std doc kid k
  | _, _ => True

theorem Current.jwksKey (h : Current std s) {forceRefresh : Bool} {i : Input}
    (hr : ∀ doc ∈ (jwksKey std v s kid forceRefresh i.clock i.reply).1.docs, Regular std doc) :
    Current std (jwksKey std v s kid forceRefresh i.clock i.reply).1 ∧
      Right std (jwksKey std v s kid forceRefresh i.clock i.reply).1 (.jwksKey kid forceRefresh)
        (jwksKey std v s kid forceRefresh i.clock i.reply).2 := by
  have hlookup : ∀ {s}, Current std s → Right std s (.jwksKey kid forceRefresh)
      (some (Jwt.lookupLocked s kid)) := by
    intro s hs
    cases hk : Jwt.lookupLocked s kid with
    | none => trivial
    | some k => exact hs.lookupLocked hk
  have hfetch : (∀ doc ∈ (Jwt.fetchLocked std s (i.clock 1) i.reply).1.docs, Regular std doc) →
      Current std (Jwt.fetchLocked std s (i.clock 1) i.reply).1 := by
    intro hdocs
    apply h.fetchLocked
    intro doc hdoc
    apply hdocs
    rw [docs_fetchLocked]
    exact List.mem_append_right _ (Option.mem_toList.mpr hdoc)
  obtain heq | ⟨s', rfl, heq | heq⟩ := jwksKey_eq std v s kid forceRefresh i.clock i.reply <;>
    rw [heq] at hr ⊢
  · exact ⟨h, hlookup h⟩
  · exact ⟨hfetch hr, hlookup (hfetch hr)⟩
  · exact ⟨hfetch hr, trivial⟩

/-- The times of the token's claims admit the instant `now`. -/
def InTime (std : Primitives) (payloadSeg : String) (now : ℤ) : Prop :=
  ∃ claims, (std.decodeString payloadSeg).bind std.unmarshalClaims = some claims ∧
    (∀ exp ∈ claims.exp, Time.sinceEpoch now < exp * Time.second) ∧
    ∀ nbf ∈ claims.nbf, nbf * Time.second ≤ Time.sinceEpoch now

abbrev TokenLog := List (Reading Jwks TokenOp TokenAns)

def Listed (std : Primitives) (log : TokenLog) (kid : String) (k : PublicKey) : Prop :=
  ∃ r ∈ log, ∃ doc, latest std r.state.docs = some doc ∧ Lists std doc kid k

def SignedRS256 (std : Primitives) (v : JwtVerifier) (log : TokenLog) (signingInput : String)
    (sig : Bytes) (kid : String) : Prop :=
  ∃ k, std.verifyPKCS1v15 k (std.sha256 signingInput) sig ∧
    (v.pubKey = some k ∨ v.pubKey = none ∧ Listed std log kid k)

/-- What the acceptance of a token says, where `log` is what the call has read. -/
def Sound (std : Primitives) (v : JwtVerifier) (log : TokenLog) (token : String) : Prop :=
  ∃ headerSeg payloadSeg sigSeg hdr sig,
    split token '.' = [headerSeg, payloadSeg, sigSeg] ∧
    (std.decodeString headerSeg).bind std.unmarshalHeader = some hdr ∧
    std.decodeString sigSeg = some sig ∧
    (v.alg = "HS256" ∧ equalFold hdr.alg "HS256" ∧
        sig = std.hmac v.secret (headerSeg ++ "." ++ payloadSeg) ∨
      v.alg = "RS256" ∧ equalFold hdr.alg "RS256" ∧
        SignedRS256 std v log (headerSeg ++ "." ++ payloadSeg) sig hdr.kid) ∧
    ∃ s now, log.getLast? = some ⟨s, .now, now⟩ ∧ InTime std payloadSeg now

theorem lt_of_unix_lt {now n : ℤ} (h : Time.unix now < n) : Time.sinceEpoch now < n * Time.second :=
  (Int.ediv_lt_iff_lt_mul (by decide)).mp h

theorem le_of_le_unix {now n : ℤ} (h : n ≤ Time.unix now) : n * Time.second ≤ Time.sinceEpoch now :=
  (Int.le_ediv_iff_mul_le (by decide)).mp h

theorem claimsValid_leads {payloadSeg : String} {log : TokenLog} :
    Leads (fun _ => True) (Right std) (fun log' b => b = true →
      ∃ s now, log' = log ++ [⟨s, .now, now⟩] ∧ InTime std payloadSeg now)
      (claimsValid std payloadSeg) log := by
  unfold claimsValid
  cases hc : (std.decodeString payloadSeg).bind std.unmarshalClaims with
  | none => exact fun h => by cases h
  | some claims =>
    refine leads_perform_bind.mpr ⟨trivial, fun s now _ => ?_⟩
    dsimp only
    split_ifs with hexp hnbf
    · exact fun h => by cases h
    · exact fun h => by cases h
    · intro _
      refine ⟨s, now, rfl, claims, hc, fun exp he => ?_, fun nbf hn => ?_⟩
      · rw [Option.mem_def.mp he] at hexp
        apply lt_of_unix_lt
        simpa using hexp
      · rw [Option.mem_def.mp hn] at hnbf
        apply le_of_le_unix
        simpa using hnbf

theorem checkJwks_leads {signingInput : String} {sig : Bytes} {forceRefresh : Bool}
    {log : TokenLog} :
    Leads (fun _ => True) (Right std) (fun log' b => b = true → ∃ k,
      std.verifyPKCS1v15 k (std.sha256 signingInput) sig ∧ Listed std log' kid k)
      (checkJwks std signingInput sig kid forceRefresh) log := by
  refine leads_perform_bind.mpr ⟨trivial, fun s a ha => ?_⟩
  rcases a with _ | _ | k
  · trivial
  · exact fun h => by cases h
  · intro hcheck
    exact ⟨k, hcheck, _, List.mem_append_right _ (List.mem_singleton_self _), ha⟩

theorem verifyRS256_leads {signingInput : String} {sig : Bytes} {log : TokenLog} :
    Leads (fun _ => True) (Right std) (fun log' b => b = true →
      SignedRS256 std v log' signingInput sig kid)
      (verifyRS256 std v signingInput sig kid) log := by
  unfold verifyRS256
  cases hkey : v.pubKey with
  | some k => exact fun hcheck => ⟨k, hcheck, .inl hkey⟩
  | none =>
    have hlookup : ∀ (log' : TokenLog) (b : Bool), (b = true → ∃ k,
        std.verifyPKCS1v15 k (std.sha256 signingInput) sig ∧ Listed std log' kid k) →
        b = true → SignedRS256 std v log' signingInput sig kid := by
      intro log' b h hb
      obtain ⟨k, hk, hr⟩ := h hb
      exact ⟨k, hk, .inr ⟨hkey, hr⟩⟩
    dsimp only
    split_ifs
    · exact fun h => by cases h
    · apply leads_bind.mpr
      apply Leads.mono _ checkJwks_leads
      intro log' b hb
      cases b with
      | true => exact hlookup log' true hb
      | false => exact Leads.mono hlookup checkJwks_leads

theorem SignedRS256.append {log : TokenLog} {signingInput : String} {sig : Bytes}
    (h : SignedRS256 std v log signingInput sig kid) (more : TokenLog) :
    SignedRS256 std v (log ++ more) signingInput sig kid := by
  obtain ⟨k, hk, hkey | ⟨hkey, r, hr, hdoc⟩⟩ := h
  · exact ⟨k, hk, .inl hkey⟩
  · exact ⟨k, hk, .inr ⟨hkey, r, List.mem_append_left _ hr, hdoc⟩⟩

theorem verify_leads (token : String) :
    Leads (fun _ => True) (Right std) (fun log b => b = true → Sound std v log token)
      (verify std v token) [] := by
  unfold verify
  split
  · rename_i headerSeg payloadSeg sigSeg hsplit
    cases hhdr : (std.decodeString headerSeg).bind std.unmarshalHeader with
    | none => exact fun h => by cases h
    | some hdr =>
      dsimp only
      by_cases halg : equalFold hdr.alg v.alg
      swap
      · rw [if_pos (by simpa using halg)]
        exact fun h => by cases h
      rw [if_neg (by simpa using halg)]
      cases hsig : std.decodeString sigSeg with
      | none => exact fun h => by cases h
      | some sig =>
        dsimp only
        split_ifs with hhs hmac hrs
        · exact fun h => by cases h
        · apply Leads.mono _ claimsValid_leads
          intro log b hb hb'
          obtain ⟨s, now, hlog, htime⟩ := hb hb'
          refine ⟨_, _, _, hdr, sig, hsplit, hhdr, hsig, .inl ⟨hhs, ?_, not_not.mp hmac⟩, s, now, ?_,
            htime⟩
          · rwa [← hhs]
          · rw [hlog]
            exact List.getLast?_concat
        · apply leads_bind.mpr
          apply Leads.mono _ verifyRS256_leads
          intro log b hb
          cases b with
          | false => exact fun h => by cases h
          | true =>
            apply Leads.mono _ claimsValid_leads
            intro log' b' hb' hb''
            obtain ⟨s, now, rfl, htime⟩ := hb' hb''
            refine ⟨_, _, _, hdr, sig, hsplit, hhdr, hsig, .inr ⟨hrs, ?_, ?_⟩, s, now, ?_, htime⟩
            · rwa [← hrs]
            · exact SignedRS256.append (hb rfl) _
            · exact List.getLast?_concat
        · exact fun h => by cases h
  · exact fun h => by cases h

theorem docs_serve (s : Jwks) (o : TokenOp) (i : Input) : s.docs ⊆ (serve std v s o i).1.docs := by
  cases o with
  | jwksKey kid forceRefresh => exact docs_jwksKey s kid forceRefresh i.clock i.reply
  | now => exact List.Subset.refl _

theorem docs_step {c c' : Crowd Jwks TokenCall} {m : Crowd.Move String Input Empty}
    (h : c.step (tokenRules std v) m = some c') : c.shared.docs ⊆ c'.shared.docs := by
  obtain ⟨j, s, t, -, hr, rfl⟩ | ⟨n, i, t, s, t', -, -, hr, rfl⟩ | ⟨e, -⟩ := Crowd.step_cases h
  · obtain ⟨rfl, -⟩ := Prod.mk.inj (Option.some.inj hr)
    exact List.Subset.refl _
  · obtain ⟨o, k, -, rfl, -⟩ := Thread.act_cases hr
    exact docs_serve c.shared o i
  · exact e.elim

/-- In every run of calls in which all documents that were received are regular, a call that
accepts its token does so soundly. -/
theorem verify_sound (std : Primitives) (v : JwtVerifier)
    (ms : List (Crowd.Move String Input Empty)) (c : Crowd Jwks TokenCall)
    (hr : exec (Crowd.step (tokenRules std v)) ⟨{}, []⟩ ms = some c)
    (hdocs : ∀ doc ∈ c.shared.docs, Regular std doc) :
    ∀ t ∈ c.parties, t.prog.value? = some true → Sound std v t.log t.job := by
  let Good : Crowd Jwks TokenCall → Prop := fun c => ∀ doc ∈ c.shared.docs, Regular std doc
  let Inv : Crowd Jwks TokenCall → Prop := fun c =>
    c.Holds (Current std) fun _ t =>
      Leads (fun _ => True) (Right std) (fun log b => b = true → Sound std v log t.job) t.prog t.log
  have hstep : ∀ c m c', Inv c → (∀ c', c.step (tokenRules std v) m = some c' → Good c') →
      c.step (tokenRules std v) m = some c' → Inv c' := by
    intro c m c' hi hgood hs
    refine Thread.leads_step_of verify_leads (fun n o i _ hshared _ => ?_) (fun x => x.elim) hi hs
    have hafter := hgood c' hs
    dsimp only [Good] at hafter
    rw [hshared] at hafter
    cases o with
    | jwksKey kid forceRefresh => exact hi.shared.jwksKey hafter
    | now => exact ⟨hi.shared, trivial⟩
  have hinit : Inv ⟨{}, []⟩ := ⟨rfl, fun t ht => by cases ht⟩
  have hback : ∀ c m c', c.step (tokenRules std v) m = some c' → Good c' → Good c :=
    fun c m c' hs hgood doc hdoc => hgood doc (docs_step hs hdoc)
  intro t ht hret
  have hdel := (exec_invariant hstep (meets_of_last hback hr hdocs).2 hr hinit).each t ht
  rw [Prog.value?_eq_some.mp hret] at hdel
  exact hdel rfl

/-- Primitives under which a segment is its own decoding, a header is a key id, and a
signature is a modulus. -/
def plain : Primitives where
  decodeString s := some (s.toList.map fun c => UInt8.ofNat c.toNat)
  unmarshalHeader bs := some ⟨"RS256", String.ofList (bs.map fun b => Char.ofNat b.toNat)⟩
  unmarshalClaims _ := some ⟨none, none⟩
  hmac _ _ := []
  sha256 _ := []
  verifyPKCS1v15 k _ sig := bigEndian sig = k.n
  parseRSAPublicKeyPEM _ := none

def remote : JwtVerifier := newJWTVerifier plain { jwtAlg := "rs256", jwksURL := "https://keys" }

def offer (doc : List JWK) : Input := { reply := .response 200 (some doc) }

def firstDoc : List JWK := [⟨"RSA", "a", "K", "E"⟩]
def longDoc : List JWK := [⟨"RSA", "a", "L", "E"⟩, ⟨"RSA", "b", "M", "EEEEEEEEE"⟩]
def doubleDoc : List JWK := [⟨"RSA", "a", "K", "E"⟩, ⟨"RSA", "a", "L", "E"⟩]

/-- Key `a` is `K`; then it is `L`, in a document with a key whose exponent has nine bytes. -/
def rotated : List (Crowd.Move String Input Empty) :=
  [.enter "a.p.K", .act 0 (offer firstDoc), .act 0 {},
    .enter "a.p.X", .act 1 {}, .act 1 (offer longDoc),
    .enter "a.p.K", .act 2 {}, .act 2 {}]

def doubled : List (Crowd.Move String Input Empty) :=
  [.enter ".p.L", .act 0 (offer doubleDoc), .act 0 {}]

/-- A call of the run accepts a token that it should not. -/
def AcceptsWrongly (ms : List (Crowd.Move String Input Empty)) : Prop :=
  ∃ c t, exec (Crowd.step (tokenRules plain remote)) ⟨{}, []⟩ ms = some c ∧ t ∈ c.parties ∧
    t.prog.value? = some true ∧ ¬ Sound plain remote t.log t.job

/-- What a call was asked, what it returned, and the documents received at each reading. -/
def outcome (ms : List (Crowd.Move String Input Empty)) (i : ℕ) :
    Option (String × Option Bool × List (List (List JWK))) :=
  (exec (Crowd.step (tokenRules plain remote)) ⟨{}, []⟩ ms).bind fun c => c.parties[i]?.map fun t =>
    (t.job, t.prog.value?, t.log.map (·.state.docs))

theorem acceptsWrongly_of_outcome {ms : List (Crowd.Move String Input Empty)} {i : ℕ}
    {token seg payloadSeg sigSeg : String} {docs : List (List (List JWK))} (kid : String)
    (doc : List JWK) (ho : outcome ms i = some (token, some true, docs))
    (hsplit : split token '.' = [seg, payloadSeg, sigSeg])
    (hkid : (plain.decodeString seg).bind plain.unmarshalHeader = some ⟨"RS256", kid⟩)
    (hdocs : ∀ ds ∈ docs, latest plain ds = some doc)
    (hdoc : ∀ sig ∈ plain.decodeString sigSeg, ∀ k, Lists plain doc kid k → bigEndian sig ≠ k.n) :
    AcceptsWrongly ms := by
  obtain ⟨c, hc, ht⟩ := Option.bind_eq_some_iff.mp ho
  obtain ⟨t, hi, heq⟩ := Option.map_eq_some_iff.mp ht
  obtain ⟨rfl, hret, rfl⟩ := by simpa using heq
  refine ⟨c, t, hc, List.mem_of_getElem? hi, hret, ?_⟩
  rintro ⟨_, _, _, hdr, sig, hsplit', hhdr, hsig, hsigned, _⟩
  rw [hsplit] at hsplit'
  obtain ⟨rfl, rfl, rfl, _⟩ := by simpa using hsplit'
  rw [hkid] at hhdr
  cases hhdr
  obtain ⟨halg, _⟩ | ⟨_, _, k, hk, hkey | ⟨_, r, hr, doc', hdoc', hlists⟩⟩ := hsigned
  · exact absurd halg (by decide +kernel)
  · have hnone : remote.pubKey = none := by decide +kernel
    rw [hnone] at hkey
    cases hkey
  · rw [hdocs _ (List.mem_map_of_mem hr)] at hdoc'
    cases hdoc'
    exact hdoc sig hsig k hlists (of_decide_eq_true hk)

/-- A replaced key is accepted when the document that replaces it makes `jwkToRSA` panic, and a
token without a key id is accepted under one of two keys. -/
theorem verify_unsound : AcceptsWrongly rotated ∧ AcceptsWrongly doubled := by
  constructor
  · have ho : outcome rotated 2 =
        some ("a.p.K", some true, [[firstDoc, longDoc], [firstDoc, longDoc]]) := by decide +kernel
    have hu : usable plain longDoc = [("a", ⟨76, 69⟩)] := by decide +kernel
    apply acceptsWrongly_of_outcome "a" longDoc ho
    · rfl
    · rfl
    · decide +kernel
    · intro sig hsig k hk
      cases hsig
      rw [Lists, if_neg (by decide), hu, List.mem_singleton] at hk
      obtain rfl := (Prod.mk.inj hk).2
      decide +kernel
  · have ho : outcome doubled 0 = some (".p.L", some true, [[doubleDoc], [doubleDoc]]) := by
      decide +kernel
    have hu : (usable plain doubleDoc).length = 2 := by decide +kernel
    apply acceptsWrongly_of_outcome "" doubleDoc ho
    · rfl
    · rfl
    · decide +kernel
    · intro sig hsig k hk
      rw [Lists, if_pos rfl] at hk
      obtain ⟨kid', hk⟩ := hk
      rw [hk] at hu
      cases hu

def secondDoc : List JWK := [⟨"RSA", "a", "L", "E"⟩, ⟨"EC", "b", "", ""⟩]

/-- Key `a` is `K` and then `L`, with an error page in between. Two calls with the old key and the
new one overlap. -/
def replaced : List (Crowd.Move String Input Empty) :=
  [.enter "a.p.K", .act 0 (offer firstDoc), .act 0 {},
    .enter "a.p.X", .act 1 {}, .act 1 { reply := .response 500 (some longDoc) },
    .enter "a.p.K", .enter "a.p.L", .act 3 {}, .act 2 {}, .act 3 (offer secondDoc), .act 3 {},
      .act 2 {},
    .enter "a.p.K", .act 4 {}, .act 4 {}]

theorem verify_sound_replaced :
    ∃ c, exec (Crowd.step (tokenRules plain remote)) ⟨{}, []⟩ replaced = some c ∧
      c.parties.map (·.prog.value?) = [some true, some false, some true, some true, some false] ∧
      ∀ t ∈ c.parties, t.prog.value? = some true → Sound plain remote t.log t.job := by
  have hrun : (exec (Crowd.step (tokenRules plain remote)) ⟨{}, []⟩ replaced).map
      (fun c => (c.shared.docs, c.parties.map (·.prog.value?))) =
        some ([firstDoc, secondDoc], [some true, some false, some true, some true, some false]) := by
    decide +kernel
  obtain ⟨c, hc, heq⟩ := Option.map_eq_some_iff.mp hrun
  obtain ⟨hdocs, hvalues⟩ := Prod.mk.inj heq
  have hregular : ∀ doc ∈ [firstDoc, secondDoc], Regular plain doc := by
    intro doc hdoc
    obtain rfl | rfl : doc = firstDoc ∨ doc = secondDoc := by simpa using hdoc
    · exact ⟨by decide +kernel, by decide +kernel⟩
    · exact ⟨by decide +kernel, by decide +kernel⟩
  exact ⟨c, hc, hvalues, verify_sound plain remote replaced c hc (hdocs ▸ hregular)⟩

end ReverseProxyLb.Middleware.Jwt
