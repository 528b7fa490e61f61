import Mathlib.Data.List.AList
import ReverseProxyLb.Cache.Entry

/-! A map from keys to elements of a doubly linked list, kept in order of use. An element
has an identity of its own, which is what the map points to. -/
namespace ReverseProxyLb.Cache
open Text

structure Element where
  id : ℕ
  value : CacheEntry

structure CacheConfig where
  methods : List String := []
  defaultTTL : ℤ := 0
  maxEntries : ℤ := 0

structure ResponseCache where
  methods : List String
  defaultTTL : ℤ
  maxEntries : ℕ
  entries : AList fun _ : String => ℕ
  lru : List Element
  refreshing : List String
  varyHints : AList fun _ : String => List String
  /-- The identity of the next element made. -/
  nextElement : ℕ

/-- The cache `Cache` builds, with its defaults. -/
def newCache (cfg : CacheConfig) : ResponseCache where
  methods := if cfg.methods = [] then ["GET", "HEAD"]
    else cfg.methods.map fun m => toUpper (trimSpace m)
  defaultTTL := if cfg.defaultTTL ≤ 0 then 60 * Time.second else cfg.defaultTTL
  maxEntries := if cfg.maxEntries ≤ 0 then 1000 else cfg.maxEntries.toNat
  entries := ∅
  lru := []
  refreshing := []
  varyHints := ∅
  nextElement := 0

/-- `lru.Remove(el)`. -/
def removeElement (id : ℕ) (lru : List Element) : List Element := lru.filter (·.id ≠ id)

/-- `lru.MoveToFront(el)`. -/
def moveToFront (id : ℕ) (lru : List Element) : List Element :=
  match lru.find? (·.id = id) with
  | some el => el :: removeElement id lru
  | none => lru

/-- `el.Value = e`. -/
def setValue (id : ℕ) (e : CacheEntry) (lru : List Element) : List Element :=
  lru.map fun el => if el.id = id then { el with value := e } else el

namespace ResponseCache

def valueOf (c : ResponseCache) (id : ℕ) : Option CacheEntry :=
  (c.lru.find? (·.id = id)).map (·.value)

/-- The key under which `lookup` searches. -/
def lookupKey (c : ResponseCache) (baseKey : String) (r : Request) : String :=
  match c.varyHints.lookup baseKey with
  | some names => baseKey ++ buildVaryKey names r
  | none => baseKey

def lookup (c : ResponseCache) (baseKey : String) (r : Request) :
    Option CacheEntry × ResponseCache :=
  match c.entries.lookup (c.lookupKey baseKey r) with
  | some id => (c.valueOf id, { c with lru := moveToFront id c.lru })
  | none => (none, c)

def remove (c : ResponseCache) (k : String) (id : ℕ) : ResponseCache :=
  { c with lru := removeElement id c.lru, entries := c.entries.erase k }

def purgeStep (baseKey : String) (c : ResponseCache) (p : (_ : String) × ℕ) : ResponseCache :=
  if (c.valueOf p.2).any (·.baseKey = baseKey) then c.remove p.1 p.2 else c

/-- `purgeBaseLocked`: one pass over the map. -/
def purgeBaseLocked (c : ResponseCache) (baseKey : String) : ResponseCache :=
  c.entries.entries.foldl (purgeStep baseKey) c

/-- A changed set of `Vary` names purges the resource's variants and replaces the hint. -/
def settleVary (c : ResponseCache) (e : CacheEntry) : ResponseCache :=
  let prev := c.varyHints.lookup e.baseKey
  if (prev.isSome ∨ e.varyNames ≠ []) ∧ prev.getD [] ≠ e.varyNames then
    let c := c.purgeBaseLocked e.baseKey
    if e.varyNames ≠ [] then
      { c with varyHints := c.varyHints.insert e.baseKey e.varyNames }
    else { c with varyHints := c.varyHints.erase e.baseKey }
  else c

/-- The loop that enforces the bound, at most `fuel` rounds of it. -/
def evict : ℕ → ResponseCache → ResponseCache
  | 0, c => c
  | fuel + 1, c =>
    if c.maxEntries < c.lru.length then
      match c.lru.getLast? with
      | some oldest => evict fuel (c.remove oldest.value.key oldest.id)
      | none => c
    else c

/-- The second part of `store`: overwrite in place, or push and evict. -/
def insertEntry (c : ResponseCache) (e : CacheEntry) : ResponseCache :=
  match c.entries.lookup e.key with
  | some id => { c with lru := moveToFront id (setValue id e c.lru) }
  | none =>
    evict (c.lru.length + 1)
      { c with
        lru := ⟨c.nextElement, e⟩ :: c.lru
        entries := c.entries.insert e.key c.nextElement
        nextElement := c.nextElement + 1 }

def store (c : ResponseCache) (e : CacheEntry) : ResponseCache := (c.settleVary e).insertEntry e

def live (c : ResponseCache) : List CacheEntry := c.lru.map (·.value)

end ResponseCache
end ReverseProxyLb.Cache
