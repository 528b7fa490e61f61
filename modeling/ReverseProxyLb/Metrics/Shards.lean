import Mathlib.Data.BitVec
import ReverseProxyLb.Lib.Run
import ReverseProxyLb.Lib.Sweep

/-! `Load` adds up the shards while calls of `Add` go on. It may miss an `Add` and see a
later one, but it misses none that was over when it began. -/
namespace ReverseProxyLb.Metrics
open Lib

/-- There is a shard for every processor, and their number fits the `uint32` it is cast to. -/
structure ShardedCounter where
  shards : List (BitVec 64)
  pos : 0 < shards.length
  fits : shards.length < 2 ^ 32

namespace ShardedCounter

/-- `NewShardedCounter`, given `GOMAXPROCS`. -/
def newShardedCounter (procs : ℤ) (h : procs < 2 ^ 32) : ShardedCounter where
  shards := List.replicate (if procs < 1 then 1 else procs).toNat 0
  pos := by
    rw [List.length_replicate]
    split_ifs <;> omega
  fits := by
    rw [List.length_replicate]
    split_ifs <;> omega

/-- `Add`, with what `localrand` gives. -/
def add (c : ShardedCounter) (localrand : BitVec 32) (delta : BitVec 64) : ShardedCounter where
  shards := c.shards.modify (localrand % BitVec.ofNat 32 c.shards.length).toNat (· + delta)
  pos := by simpa using c.pos
  fits := by simpa using c.fits

/-- A call of `Add`. -/
structure Addition where
  localrand : BitVec 32
  delta : BitVec 64

def after (c : ShardedCounter) (calls : List Addition) : ShardedCounter :=
  calls.foldl (fun c call => c.add call.localrand call.delta) c

structure Reading where
  counter : ShardedCounter
  sweep : Sweep (BitVec 64) := .start

inductive Step where
  | add (call : Addition)
  | load

def Reading.step (r : Reading) : Step → Option Reading
  | .add call => some { r with counter := r.counter.add call.localrand call.delta }
  | .load => (r.sweep.load r.counter.shards).map fun sweep => { r with sweep := sweep }

/-- The calls of `Add` among the steps. -/
def additions (steps : List Step) : List Addition :=
  steps.filterMap fun
    | .add call => some call
    | .load => none

theorem shard_lt (c : ShardedCounter) (localrand : BitVec 32) :
    (localrand % BitVec.ofNat 32 c.shards.length).toNat < c.shards.length := by
  rw [BitVec.toNat_umod, BitVec.toNat_ofNat, Nat.mod_eq_of_lt c.fits]
  exact Nat.mod_lt _ c.pos

theorem sum_add (c : ShardedCounter) (localrand : BitVec 32) (delta : BitVec 64) :
    (c.add localrand delta).shards.sum = c.shards.sum + delta :=
  Sweep.sum_modify_add (c.shard_lt localrand) delta

theorem sum_after (c : ShardedCounter) (calls : List Addition) :
    (c.after calls).shards.sum = c.shards.sum + (calls.map Addition.delta).sum := by
  induction calls generalizing c with
  | nil => simp [after]
  | cons call calls ih =>
    have hrest := ih (c.add call.localrand call.delta)
    rw [sum_add, add_assoc] at hrest
    simpa [after] using hrest

theorem outlook_run {r r' : Reading} {steps : List Step} (h : exec Reading.step r steps = some r') :
    ∃ seen : List Addition, seen.Sublist (additions steps) ∧
      r'.sweep.outlook r'.counter.shards =
        r.sweep.outlook r.counter.shards + (seen.map Addition.delta).sum := by
  induction steps generalizing r with
  | nil =>
    cases h
    exact ⟨[], List.Sublist.refl _, by simp⟩
  | cons step steps ih =>
    obtain ⟨t, ht, hrest⟩ := exec_cons_eq_some h
    obtain ⟨seen, hseen, houtlook⟩ := ih hrest
    cases step with
    | load =>
      obtain ⟨sweep, hload, rfl⟩ := Option.map_eq_some_iff.mp ht
      refine ⟨seen, hseen, houtlook.trans ?_⟩
      rw [Sweep.outlook_load hload]
    | add call =>
      cases ht
      -- The call is seen if its shard is ahead.
      have hcall := Sweep.outlook_modify (s := r.sweep) (r.counter.shard_lt call.localrand) call.delta
      split_ifs at hcall
      · refine ⟨call :: seen, hseen.cons_cons call, houtlook.trans ?_⟩
        rw [List.map_cons, List.sum_cons, ← add_assoc]
        exact congrArg (· + _) hcall
      · refine ⟨seen, hseen.cons call, houtlook.trans ?_⟩
        rw [add_zero] at hcall
        exact congrArg (· + _) hcall

/-- What `Load` returns: every addition from before it, and some of those that are made
meanwhile, each of them whole. -/
theorem load_sees_whole_additions (procs : ℤ) (hprocs : procs < 2 ^ 32) (before : List Addition)
    (steps : List Step) (r : Reading)
    (hrun : exec Reading.step ⟨(newShardedCounter procs hprocs).after before, .start⟩ steps = some r)
    (hdone : r.sweep.load r.counter.shards = none) :
    ∃ seen : List Addition, seen.Sublist (additions steps) ∧
      r.sweep.sum = (before.map Addition.delta).sum + (seen.map Addition.delta).sum := by
  obtain ⟨seen, hseen, houtlook⟩ := outlook_run hrun
  refine ⟨seen, hseen, ?_⟩
  rw [Sweep.outlook_of_done hdone, Sweep.outlook_start, sum_after] at houtlook
  simpa [newShardedCounter] using houtlook

/-- The first shard is read before an addition to it and the second after one. -/
theorem load_misses_first :
    ∃ r, exec Reading.step ⟨(newShardedCounter 2 (by decide)).after [⟨0, 5⟩], .start⟩
        [.load, .add ⟨0, 1⟩, .add ⟨1, 2⟩, .load] = some r ∧ r.sweep.sum = 7 ∧
      ∃ seen : List Addition, seen.Sublist (additions [.load, .add ⟨0, 1⟩, .add ⟨1, 2⟩, .load]) ∧
        r.sweep.sum = ([(⟨0, 5⟩ : Addition)].map Addition.delta).sum + (seen.map Addition.delta).sum :=
  ⟨_, rfl, by decide, load_sees_whole_additions 2 (by decide) _ _ _ rfl (by decide)⟩

end ShardedCounter
end ReverseProxyLb.Metrics
