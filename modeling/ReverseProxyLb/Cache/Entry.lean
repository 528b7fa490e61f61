import ReverseProxyLb.Base.Number
import ReverseProxyLb.Base.Text

/-! What the response cache reads of requests and captured responses, the keys it builds
from them, and the entry it stores. -/
namespace ReverseProxyLb.Cache
open Text

/-- A request as the cache reads it; `requestURI` is what `r.URL.RequestURI()` gives. -/
structure Request where
  method : String
  host : String
  urlHost : String := ""
  requestURI : String
  header : Header := fun _ => []

def Request.keyHost (r : Request) : String := if r.host = "" then r.urlHost else r.host

/-- `cacheCapture` once the handler has returned. -/
structure Capture where
  status : ℤ := 200
  header : Header := fun _ => []
  body : String := ""
  overflow : Bool := false
  streamed : Bool := false
  hijacked : Bool := false

structure CacheControl where
  noStore : Bool := false
  noCache : Bool := false
  isPrivate : Bool := false
  isPublic : Bool := false
  maxAge : ℤ := 0
  maxAgeSet : Bool := false
  swr : ℤ := 0
  deriving Repr, DecidableEq

/-- The directives of a `Cache-Control` value, trimmed and in lower case. -/
def directives (v : String) : List String := (split v ',').map fun raw => trimSpace (toLower raw)

/-- One directive, in the order of the source's `switch`. -/
def readDirective (acc : CacheControl × ℤ × ℤ) (d : String) : CacheControl × ℤ × ℤ :=
  let (cc, sMaxAge, maxAge) := acc
  if d = "no-store" then ({ cc with noStore := true }, sMaxAge, maxAge)
  else if d = "no-cache" then ({ cc with noCache := true }, sMaxAge, maxAge)
  else if d = "private" then ({ cc with isPrivate := true }, sMaxAge, maxAge)
  else if d = "public" then ({ cc with isPublic := true }, sMaxAge, maxAge)
  else match after? "s-maxage=" d with
    | some n => (cc, (atoi n).getD sMaxAge, maxAge)
    | none => match after? "max-age=" d with
      | some n => (cc, sMaxAge, (atoi n).getD maxAge)
      | none => match after? "stale-while-revalidate=" d with
        | some n =>
          match atoi n with
          | some k => if 0 < k then ({ cc with swr := k }, sMaxAge, maxAge) else (cc, sMaxAge, maxAge)
          | none => (cc, sMaxAge, maxAge)
        | none => (cc, sMaxAge, maxAge)

def parseCacheControl (v : String) : CacheControl :=
  if v = "" then {} else
    let (cc, sMaxAge, maxAge) := (directives v).foldl readDirective ({}, -1, -1)
    if 0 ≤ sMaxAge then { cc with maxAge := sMaxAge, maxAgeSet := true }
    else if 0 ≤ maxAge then { cc with maxAge := maxAge, maxAgeSet := true }
    else cc

def requestBypassesCache (r : Request) : Bool :=
  let cc := parseCacheControl (r.header.get "Cache-Control")
  cc.noStore || cc.noCache

def requestKey (r : Request) : String := r.method ++ " " ++ r.keyHost ++ " " ++ r.requestURI

def renderVary (r : Request) : List String → String
  | [] => ""
  | n :: names => n ++ "=" ++ r.header.get n ++ ";" ++ renderVary r names

def buildVaryKey (names : List String) (r : Request) : String :=
  if names = [] then "" else " vary:" ++ renderVary r names

def parseVary (v : String) : List String :=
  if v = "" then [] else
    ((split v ',').map fun p => canonicalHeaderKey (trimSpace p)).filter (· ≠ "")

structure CacheEntry where
  key : String
  baseKey : String
  status : ℤ
  header : Header
  body : String
  storedAt : ℤ
  ttl : ℤ
  swr : ℤ
  etag : String
  lastMod : String
  varyNames : List String
  isPublic : Bool

namespace CacheEntry

def fresh (e : CacheEntry) (now : ℤ) : Bool := Time.sub now e.storedAt < e.ttl

def serveableStale (e : CacheEntry) (now : ℤ) : Bool :=
  if e.swr ≤ 0 then false else
    let age := Time.sub now e.storedAt
    decide (e.ttl ≤ age ∧ age < int64 (e.ttl + e.swr))

end CacheEntry

/-- The `isPublic` of the source. -/
def explicitlyPublic (cacheControl : String) : Bool :=
  let respCC := parseCacheControl cacheControl
  respCC.isPublic || (respCC.maxAgeSet && contains (toLower cacheControl) "s-maxage")

/-- `entryFromCapture`; the response is not cacheable where it gives nothing. -/
def entryFromCapture (defaultTTL : ℤ) (r : Request) (baseKey : String) (cw : Capture) (now : ℤ) :
    Option CacheEntry :=
  let respCC := parseCacheControl (cw.header.get "Cache-Control")
  let isPublic := explicitlyPublic (cw.header.get "Cache-Control")
  let varyNames := parseVary (cw.header.get "Vary")
  if cw.hijacked || cw.streamed || cw.overflow then none
  else if cw.status ≠ 200 then none
  else if respCC.noStore || respCC.isPrivate || respCC.noCache then none
  else if cw.header.get "Set-Cookie" ≠ "" then none
  else if r.header.get "Authorization" ≠ "" ∧ isPublic = false then none
  else if varyNames.contains "*" then none
  else if respCC.maxAgeSet ∧ respCC.maxAge ≤ 0 then none
  else some {
    key := baseKey ++ buildVaryKey varyNames r
    baseKey := baseKey
    status := cw.status
    header := cw.header
    body := cw.body
    storedAt := now
    ttl := if respCC.maxAgeSet then int64 (respCC.maxAge * Time.second) else defaultTTL
    swr := int64 (respCC.swr * Time.second)
    etag := cw.header.get "ETag"
    lastMod := cw.header.get "Last-Modified"
    varyNames := varyNames
    isPublic := isPublic }

/-- What a stored entry says about the request and the response it was made from. -/
structure MadeFrom (e : CacheEntry) (r : Request) (baseKey : String) (cw : Capture) : Prop where
  baseKey_eq : e.baseKey = baseKey
  key_eq : e.key = baseKey ++ buildVaryKey e.varyNames r
  varyNames_eq : e.varyNames = parseVary (cw.header.get "Vary")
  isPublic_eq : e.isPublic = explicitlyPublic (cw.header.get "Cache-Control")
  authorized : r.header.get "Authorization" ≠ "" → e.isPublic = true

theorem entryFromCapture_madeFrom {defaultTTL : ℤ} {r : Request} {baseKey : String} {cw : Capture}
    {now : ℤ} {e : CacheEntry} (h : entryFromCapture defaultTTL r baseKey cw now = some e) :
    MadeFrom e r baseKey cw := by
  unfold entryFromCapture at h
  simp only [Option.ite_none_left_eq_some] at h
  obtain ⟨-, -, -, -, hauth, -, -, he⟩ := h
  cases he
  refine ⟨rfl, rfl, rfl, rfl, ?_⟩
  intro ha
  by_contra hp
  exact hauth ⟨ha, Bool.eq_false_iff.mpr hp⟩

end ReverseProxyLb.Cache
