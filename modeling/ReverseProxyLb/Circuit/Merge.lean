import ReverseProxyLb.Base.Text
import ReverseProxyLb.Circuit.Replicas
import ReverseProxyLb.Lib.Index

/-! `applyRemote` goes through the Redis hash in the order of a map iteration. Whether it
acts on a field depends on the whole hash and not on the fields before it. -/
namespace ReverseProxyLb.Circuit
open Lib

def lastColon : List Char → List Char → Option (List Char × List Char)
  | [], _ => none
  | c :: before, passed =>
    if c = ':' then some (before.reverse, passed) else lastColon before (c :: passed)

def splitLastColon (s : String) : String × String :=
  match lastColon s.toList.reverse [] with
  | some (front, suffix) => (String.ofList front, String.ofList suffix)
  | none => ("", s)

/-- `State.String`. -/
def State.string : State → String
  | .stateClosed => "closed"
  | .stateOpen => "open"
  | .stateHalfOpen => "half-open"

abbrev Fields := List (String × String)

def Fields.get? (fields : Fields) (key : String) : Option String :=
  (lastWith Prod.fst key fields).map Prod.snd

section
variable (g : RedisSyncer) (replicaID : String) (now : ℤ) (fields : Fields)

def updTS (id : String) : Option ℤ := (fields.get? (id ++ ":updated")).bind Text.atoi

def stale (id : String) : Bool := (updTS fields id).any fun ts => ttlSec g < int64 (now - ts)

def outdated (cell : Cell) (id : String) : Bool :=
  (updTS fields id).any fun ts => 0 < getClosedAt cell ∧ ts < getClosedAt cell

def applyLoop (clock : Clock) (cell : Cell) : Fields → Cell
  | [] => cell
  | (field, val) :: rest =>
    let (id, suffix) := splitLastColon field
    if suffix ≠ "state" then applyLoop clock cell rest
    else if id = replicaID then applyLoop clock cell rest
    else if stale g now fields id then applyLoop clock cell rest
    else if val = "open" then
      if outdated fields cell id then applyLoop clock cell rest
      else cell.step g.cb (.forceOpen clock)
    else applyLoop clock cell rest

/-- `now` is the Unix time that `applyRemote` starts with, `clock` what `forceOpen` reads. -/
def applyRemote (clock : Clock) (cell : Cell) : Cell :=
  applyLoop g replicaID now fields clock cell fields

def acts (cell : Cell) (kv : String × String) : Bool :=
  let (id, suffix) := splitLastColon kv.1
  suffix = "state" && id ≠ replicaID && !stale g now fields id && kv.2 = "open" &&
    !outdated fields cell id

theorem applyLoop_eq (clock : Clock) (cell : Cell) (rest : Fields) :
    applyLoop g replicaID now fields clock cell rest =
      if rest.any (acts g replicaID now fields cell) then cell.step g.cb (.forceOpen clock)
        else cell := by
  induction rest with
  | nil => rfl
  | cons kv rest ih =>
    rw [List.any_cons]
    unfold applyLoop
    -- Every test that continues is one that makes `acts` false.
    by_cases hact : acts g replicaID now fields cell kv = true
    · obtain ⟨⟨⟨⟨hs, hid⟩, hfresh⟩, hval⟩, hout⟩ := by simpa [acts] using hact
      simp [hact, hs, hid, hfresh, hval, hout]
    · rw [Bool.not_eq_true] at hact
      simp only [hact, Bool.false_or, ← ih]
      simp only [acts, Bool.and_eq_false_iff, decide_eq_false_iff_not] at hact
      split_ifs <;> simp_all

end

theorem lastColon_append (l before passed : List Char) (h : ':' ∉ l) :
    lastColon (l ++ ':' :: before) passed = some (before.reverse, l.reverse ++ passed) := by
  induction l generalizing passed with
  | nil => simp [lastColon]
  | cons c l ih =>
    rw [List.mem_cons, not_or] at h
    simp [lastColon, Ne.symm h.1, ih _ h.2]

theorem splitLastColon_append (id suffix : String) (h : ':' ∉ suffix.toList) :
    splitLastColon (id ++ (":" ++ suffix)) = (id, suffix) := by
  have hrev : (id ++ (":" ++ suffix)).toList.reverse =
      suffix.toList.reverse ++ ':' :: id.toList.reverse := by
    simp [String.toList_append]
  unfold splitLastColon
  rw [hrev, lastColon_append _ _ _ (by simpa using h)]
  simp

/-- The fields of one replica, with the time that its third field says. -/
structure Replica where
  id : String
  state : State
  failures : String
  updated : String
  time : ℤ
  atoi_updated : Text.atoi updated = some time

namespace Replica

def fields (r : Replica) : Fields :=
  [(r.id ++ ":state", r.state.string), (r.id ++ ":failures", r.failures),
    (r.id ++ ":updated", r.updated)]

def suffixes : List String := ["state", "failures", "updated"]

theorem splitLastColon_field (id : String) :
    splitLastColon (id ++ ":state") = (id, "state") ∧
      splitLastColon (id ++ ":failures") = (id, "failures") ∧
      splitLastColon (id ++ ":updated") = (id, "updated") :=
  ⟨splitLastColon_append id "state" (by decide), splitLastColon_append id "failures" (by decide),
    splitLastColon_append id "updated" (by decide)⟩

theorem map_splitLastColon_fields (r : Replica) :
    r.fields.map (fun kv => splitLastColon kv.1) = suffixes.map fun suffix => (r.id, suffix) := by
  obtain ⟨hs, hf, hu⟩ := splitLastColon_field r.id
  simp [fields, suffixes, hs, hf, hu]

theorem splitLastColon_of_mem {r : Replica} {kv : String × String} (h : kv ∈ r.fields) :
    (splitLastColon kv.1).1 = r.id := by
  have hmem : splitLastColon kv.1 ∈ suffixes.map fun suffix => (r.id, suffix) := by
    rw [← map_splitLastColon_fields]
    exact List.mem_map_of_mem h
  obtain ⟨suffix, -, heq⟩ := List.mem_map.mp hmem
  rw [← heq]

end Replica

theorem nodup_keys {replicas : List Replica} (h : (replicas.map Replica.id).Nodup) :
    ((replicas.flatMap Replica.fields).map Prod.fst).Nodup := by
  apply List.Nodup.of_map splitLastColon
  rw [List.map_map, List.map_flatMap]
  change (replicas.flatMap fun r => r.fields.map fun kv => splitLastColon kv.1).Nodup
  simp only [Replica.map_splitLastColon_fields]
  rw [List.nodup_flatMap]
  refine ⟨fun r _ => ?_, ?_⟩
  · exact (List.nodup_map_iff (fun a b hab => (Prod.mk.inj hab).2)).mpr (by decide)
  · rw [List.Nodup, List.pairwise_map] at h
    refine h.imp fun hne => ?_
    simp [List.disjoint_left, hne.symm]

section
variable {g : RedisSyncer} {self : String} {now : ℤ} {fields : Fields} {cell : Cell}
  {replicas : List Replica}

/-- A replica other than the local one that is open, not stale and not from before the recovery. -/
def Replica.Opens (g : RedisSyncer) (self : String) (now : ℤ) (cell : Cell) (r : Replica) : Prop :=
  r.id ≠ self ∧ r.state = .stateOpen ∧ int64 (now - r.time) ≤ ttlSec g ∧
    ¬ (0 < getClosedAt cell ∧ r.time < getClosedAt cell)

theorem State.string_eq_open (s : State) : s.string = "open" ↔ s = .stateOpen := by
  cases s <;> decide

theorem updTS_of_mem (hids : (replicas.map Replica.id).Nodup)
    (hf : fields.Perm (replicas.flatMap Replica.fields)) {r : Replica} (hr : r ∈ replicas) :
    updTS fields r.id = some r.time := by
  have hkeys : (fields.map Prod.fst).Nodup := (hf.map Prod.fst).nodup_iff.mpr (nodup_keys hids)
  have hmem : (r.id ++ ":updated", r.updated) ∈ fields :=
    hf.mem_iff.mpr (List.mem_flatMap.mpr ⟨r, hr, by simp [Replica.fields]⟩)
  have hget := lastWith_of_nodup hkeys hmem
  simp [updTS, Fields.get?, hget, r.atoi_updated]

theorem any_acts_iff (hids : (replicas.map Replica.id).Nodup)
    (hf : fields.Perm (replicas.flatMap Replica.fields)) :
    fields.any (acts g self now fields cell) = true ↔ ∃ r ∈ replicas, r.Opens g self now cell := by
  rw [List.any_eq_true]
  have hacts {r : Replica} (hr : r ∈ replicas) :
      acts g self now fields cell (r.id ++ ":state", r.state.string) = true ↔
        r.Opens g self now cell := by
    have hts := updTS_of_mem hids hf hr
    unfold acts Replica.Opens
    rw [(Replica.splitLastColon_field r.id).1]
    simp only [stale, outdated, hts, Option.any_some, State.string_eq_open, Bool.and_eq_true,
      decide_eq_true_eq,
      Bool.not_eq_true', decide_eq_false_iff_not, not_lt, true_and]
    tauto
  constructor
  · rintro ⟨kv, hkv, hact⟩
    obtain ⟨r, hr, hfield⟩ := List.mem_flatMap.mp (hf.mem_iff.mp hkv)
    obtain ⟨-, hfail, hupd⟩ := Replica.splitLastColon_field r.id
    simp only [Replica.fields, List.mem_cons, List.not_mem_nil, or_false] at hfield
    obtain rfl | rfl | rfl := hfield
    · exact ⟨r, hr, (hacts hr).mp hact⟩
    · simp [acts, hfail] at hact
    · simp [acts, hupd] at hact
  · rintro ⟨r, hr, hopens⟩
    refine ⟨_, hf.mem_iff.mpr (List.mem_flatMap.mpr ⟨r, hr, ?_⟩), (hacts hr).mpr hopens⟩
    simp [Replica.fields]

open Classical in
/-- Whatever the order of the fields, the breaker is forced open exactly if one of the other
replicas opens it, and nothing else happens to it. -/
theorem applyRemote_eq (g : RedisSyncer) (self : String) (now : ℤ) (clock : Clock) (cell : Cell)
    (hids : (replicas.map Replica.id).Nodup) (hf : fields.Perm (replicas.flatMap Replica.fields)) :
    applyRemote g self now fields clock cell =
        (if ∃ r ∈ replicas, r.Opens g self now cell then cell.step g.cb (.forceOpen clock) else cell) ∧
      ∀ r ∈ replicas, ∀ kv ∈ r.fields, (splitLastColon kv.1).1 = r.id := by
  refine ⟨?_, fun r _ kv hkv => Replica.splitLastColon_of_mem hkv⟩
  unfold applyRemote
  rw [applyLoop_eq]
  exact if_congr (any_acts_iff hids hf) rfl rfl

end

def openReplica : Replica where
  id := "host:1"
  state := .stateOpen
  failures := "5"
  updated := "100"
  time := 100
  atoi_updated := by decide

/-- Two more, one that last wrote a minute ago and one that wrote before the local recovery. -/
def silentReplica : Replica where
  id := "host:3"
  state := .stateOpen
  failures := "7"
  updated := "50"
  time := 50
  atoi_updated := by decide

def earlierReplica : Replica where
  id := "::1:8080"
  state := .stateOpen
  failures := "9"
  updated := "85"
  time := 85
  atoi_updated := by decide

def shuffled : Fields :=
  [("::1:8080:updated", "85"), ("host:3:state", "open"), ("host:1:updated", "100"),
    ("::1:8080:state", "open"),
    ("host:1:failures", "5"), ("host:3:updated", "50"), ("host:1:state", "open"),
    ("host:3:failures", "7"),
    ("::1:8080:failures", "9")]

def recoveredCell : Cell where
  record := some { closedAt := atSecond 90 }

/-- The replica that opened after the recovery and not long ago opens the breaker, and the other two
would not. -/
theorem applyRemote_shuffled :
    (applyRemote quickSyncer "host:2" 110 shuffled (fun _ => 0) recoveredCell).getState = .stateOpen ∧
      ¬ silentReplica.Opens quickSyncer "host:2" 110 recoveredCell ∧
      ¬ earlierReplica.Opens quickSyncer "host:2" 110 recoveredCell := by
  have hids : ([openReplica, silentReplica, earlierReplica].map Replica.id).Nodup := by decide
  have hf : shuffled.Perm ([openReplica, silentReplica, earlierReplica].flatMap Replica.fields) := by
    decide +kernel
  have hopens : openReplica.Opens quickSyncer "host:2" 110 recoveredCell :=
    ⟨by decide, rfl, by decide +kernel, by decide +kernel⟩
  have hsilent : ¬ int64 (110 - silentReplica.time) ≤ ttlSec quickSyncer := by decide +kernel
  have hearlier : 0 < getClosedAt recoveredCell ∧ earlierReplica.time < getClosedAt recoveredCell := by
    decide +kernel
  have happly := (applyRemote_eq quickSyncer "host:2" 110 (fun _ => 0) recoveredCell hids hf).1
  rw [if_pos ⟨openReplica, by simp, hopens⟩] at happly
  refine ⟨?_, fun h => hsilent h.2.2.1, fun h => h.2.2.2 hearlier⟩
  rw [happly]
  rfl

/-- A time to live whose number of seconds is rounded up. -/
def longSyncer : RedisSyncer := { quickSyncer with ttl := 16777217 * Time.second - 1 }

/-- The state of the sibling is older than the time to live and is acted on. -/
theorem rounded_ttl_acts :
    longSyncer.ttl < (16777317 - openReplica.time) * Time.second ∧
      (applyRemote longSyncer "host:2" 16777317 openReplica.fields (fun _ => 0) {}).getState =
        .stateOpen := by
  refine ⟨by decide, by decide +kernel⟩

end ReverseProxyLb.Circuit
