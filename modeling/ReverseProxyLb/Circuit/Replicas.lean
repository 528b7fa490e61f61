import ReverseProxyLb.Circuit.StateMachine
import ReverseProxyLb.Lib.Run

/-! Replicas push the state of their breaker to a Redis hash and open it when another one is open.
For every open state, wherever it was copied to, the model remembers the step at which its episode
began with a trip. -/
namespace ReverseProxyLb.Circuit
open Lib

/-- What the hash holds of a replica; `began` is not stored. -/
structure Published where
  state : State
  failures : ℤ
  updated : ℤ
  began : ℕ
  deriving DecidableEq, Repr

variable {ι : Type} [DecidableEq ι]

inductive Phase (ι : Type) where
  | start
  | pushing (state : State) (failures : ℤ) (began : ℕ)
  | read (fields : ι → Option Published)
  | applying (now : ℤ) (fields : ι → Option Published)
  | forcing (began : ℕ)

structure Push (ι : Type) where
  replica : ι
  phase : Phase ι

structure RedisSyncer where
  cb : CircuitBreaker
  ttl : ℤ

structure Cluster (ι : Type) where
  now : ℤ
  cells : ι → Cell
  hash : ι → Option Published
  expiry : ℤ := 0
  pushes : List (Push ι) := []
  /-- The number of steps taken. -/
  steps : ℕ := 0
  /-- The step at which the latest open episode of a replica began. -/
  began : ι → ℕ := fun _ => 0
  /-- The step at which a replica last went from half-open to closed. -/
  recovered : ι → Option ℕ := fun _ => none
  /-- The steps at which a replica opened by its own `RecordFailure`. -/
  trips : List ℕ := []

def Cluster.init (now : ℤ) : Cluster ι where
  now := now
  cells := fun _ => {}
  hash := fun _ => none

/-- The calls a replica makes on its own breaker. -/
inductive Local where
  | allow | recordSuccess | recordFailure | reset
  deriving DecidableEq, Repr

def Local.call (k : Local) (now : Clock) : Call :=
  match k with
  | .allow => .allow now
  | .recordSuccess => .recordSuccess now
  | .recordFailure => .recordFailure now
  | .reset => .reset

/-- The steps of a push: `pushAndRead` is the first two, or the first and the loss of the
connection, and `applyRemote` the rest. -/
inductive Progress (ι : Type) where
  | readLocal
  | eval
  | lose
  | enter
  | examine (sibling : ι)
  | finish
  | force

inductive Label (ι : Type) where
  | wait (t : ℤ)
  | call (i : ι) (k : Local)
  | tick (i : ι)
  | push (k : ℕ) (p : Progress ι)
  | expire

variable (g : RedisSyncer)

def ttlSec : ℤ := Time.ofFloat64 (Time.seconds g.ttl)

/-- `GetClosedAt`. -/
def getClosedAt (cell : Cell) : ℤ :=
  match cell.record with
  | some st => Time.unix st.closedAt
  | none => 0

def actsOn (cell : Cell) (now : ℤ) (f : Published) : Bool :=
  decide (¬ ttlSec g < now - f.updated) && decide (f.state = .stateOpen) &&
    !(decide (0 < getClosedAt cell) && decide (f.updated < getClosedAt cell))

namespace Cluster

def clock (s : Cluster ι) : Clock := fun _ => s.now

/-- The record of a replica after a call; a move into the open state runs the hook,
which starts a push. -/
def setCell (s : Cluster ι) (i : ι) (cell : Cell) : Cluster ι :=
  { s with
    cells := Function.update s.cells i cell
    pushes := if (s.cells i).getState ≠ .stateOpen ∧ cell.getState = .stateOpen
      then s.pushes ++ [⟨i, .start⟩] else s.pushes }

/-- A call that opens the breaker is a trip, one that closes it from half-open a
recovery. -/
def localCall (s : Cluster ι) (i : ι) (k : Local) : Cluster ι :=
  let cell := (s.cells i).step g.cb (k.call s.clock)
  let s' := s.setCell i cell
  { s' with
    began := if (s.cells i).getState ≠ .stateOpen ∧ cell.getState = .stateOpen
      then Function.update s.began i s.steps else s.began
    trips := if (s.cells i).getState ≠ .stateOpen ∧ cell.getState = .stateOpen
      then s.steps :: s.trips else s.trips
    recovered := if (s.cells i).getState = .stateHalfOpen ∧ k = .recordSuccess ∧
        cell.getState = .stateClosed
      then Function.update s.recovered i (some s.steps) else s.recovered }

/-- The script: the entry is stamped with the server's second, and a hash without a time
to live is gone at once. -/
def runScript (s : Cluster ι) (i : ι) (state : State) (failures : ℤ) (began : ℕ) : Cluster ι :=
  if ttlSec g ≤ 0 then { s with hash := fun _ => none }
  else { s with
    hash := Function.update s.hash i (some ⟨state, failures, Time.unix s.now, began⟩)
    expiry := s.now + ttlSec g * Time.second }

/-- `forceOpen`, which does nothing to a breaker that is open. -/
def force (s : Cluster ι) (i : ι) (began : ℕ) : Cluster ι :=
  let s' := s.setCell i ((s.cells i).step g.cb (.forceOpen s.clock))
  { s' with
    began := if (s.cells i).getState ≠ .stateOpen then Function.update s.began i began else s.began }

def setPhase (s : Cluster ι) (k : ℕ) (i : ι) (phase : Phase ι) : Cluster ι :=
  { s with pushes := s.pushes.set k ⟨i, phase⟩ }

def endPush (s : Cluster ι) (k : ℕ) : Cluster ι := { s with pushes := s.pushes.eraseIdx k }

def advance (s : Cluster ι) (k : ℕ) (p : Push ι) : Progress ι → Option (Cluster ι)
  | .readLocal =>
    match p.phase with
    | .start =>
      let st := (s.cells p.replica).stateFor
      some (s.setPhase k p.replica (.pushing st.state st.failures (s.began p.replica)))
    | _ => none
  | .eval =>
    match p.phase with
    | .pushing state failures began =>
      let s' := s.runScript g p.replica state failures began
      some (s'.setPhase k p.replica (.read s'.hash))
    | _ => none
  | .lose =>
    match p.phase with
    | .pushing .. => some (s.endPush k)
    | _ => none
  | .enter =>
    match p.phase with
    | .read fields => some (s.setPhase k p.replica (.applying (Time.unix s.now) fields))
    | _ => none
  | .examine sibling =>
    match p.phase with
    | .applying now fields =>
      if sibling = p.replica then some s
      else match fields sibling with
        | some f =>
          if actsOn g (s.cells p.replica) now f then some (s.setPhase k p.replica (.forcing f.began))
          else some s
        | none => some s
    | _ => none
  | .finish =>
    match p.phase with
    | .applying .. => some (s.endPush k)
    | _ => none
  | .force =>
    match p.phase with
    | .forcing began => some ((s.endPush k).force g p.replica began)
    | _ => none

def move (s : Cluster ι) : Label ι → Option (Cluster ι)
  | .wait t => if s.now ≤ t then some { s with now := t } else none
  | .call i k => some (s.localCall g i k)
  | .tick i => some { s with pushes := s.pushes ++ [⟨i, .start⟩] }
  | .push k p => s.pushes[k]?.bind fun push => s.advance g k push p
  | .expire => if s.expiry ≤ s.now then some { s with hash := fun _ => none } else none

def counted (s : Cluster ι) : Cluster ι := { s with steps := s.steps + 1 }

def step (s : Cluster ι) (l : Label ι) : Option (Cluster ι) := (s.move g l).map counted

def Fresh (s : Cluster ι) (began : ℕ) : Prop :=
  began ∈ s.trips ∧ ∀ i t, s.recovered i = some t → t < began

def FreshFields (s : Cluster ι) (fields : ι → Option Published) : Prop :=
  ∀ j f, fields j = some f → f.state = .stateOpen → s.Fresh f.began

def FreshPhase (s : Cluster ι) : Phase ι → Prop
  | .start => True
  | .pushing state _ began => state = .stateOpen → s.Fresh began
  | .read fields => s.FreshFields fields
  | .applying _ fields => s.FreshFields fields
  | .forcing began => s.Fresh began

/-- Every open state, in a breaker, in the hash or read by a push, comes from a fresh
episode. -/
structure Causal (s : Cluster ι) : Prop where
  past : ∀ i t, s.recovered i = some t → t < s.steps
  cells : ∀ i, (s.cells i).getState = .stateOpen → s.Fresh (s.began i)
  hash : s.FreshFields s.hash
  pushes : ∀ p ∈ s.pushes, s.FreshPhase p.phase

variable {g} {s s' : Cluster ι}

omit [DecidableEq ι] in
theorem Fresh.mono {began : ℕ} (h : s.Fresh began) (ht : ∀ t ∈ s.trips, t ∈ s'.trips)
    (hr : s'.recovered = s.recovered) : s'.Fresh began :=
  ⟨ht _ h.1, by rw [hr]; exact h.2⟩

omit [DecidableEq ι] in
theorem FreshFields.mono {fields : ι → Option Published} (h : s.FreshFields fields)
    (ht : ∀ t ∈ s.trips, t ∈ s'.trips) (hr : s'.recovered = s.recovered) :
    s'.FreshFields fields :=
  fun j f hf ho => (h j f hf ho).mono ht hr

omit [DecidableEq ι] in
theorem FreshPhase.mono {phase : Phase ι} (h : s.FreshPhase phase)
    (ht : ∀ t ∈ s.trips, t ∈ s'.trips) (hr : s'.recovered = s.recovered) :
    s'.FreshPhase phase := by
  cases phase with
  | start => trivial
  | pushing state failures began => exact fun ho => (h ho).mono ht hr
  | read fields => exact FreshFields.mono h ht hr
  | applying now fields => exact FreshFields.mono h ht hr
  | forcing began => exact Fresh.mono h ht hr

def QuietPhase : Phase ι → Prop
  | .start => True
  | .pushing state _ _ => state ≠ .stateOpen
  | .read fields => ∀ j, ∀ f ∈ fields j, f.state ≠ .stateOpen
  | .applying _ fields => ∀ j, ∀ f ∈ fields j, f.state ≠ .stateOpen
  | .forcing _ => False

structure Quiet (s : Cluster ι) (i : ι) : Prop where
  cells : ∀ j, j ≠ i → (s.cells j).getState ≠ .stateOpen
  hash : ∀ j, ∀ f ∈ s.hash j, f.state ≠ .stateOpen
  pushes : ∀ p ∈ s.pushes, QuietPhase p.phase

instance decidableQuietPhase [Fintype ι] : (phase : Phase ι) → Decidable (QuietPhase phase)
  | .start => isTrue trivial
  | .pushing state _ _ => inferInstanceAs (Decidable (state ≠ .stateOpen))
  | .read fields => inferInstanceAs (Decidable (∀ j, ∀ f ∈ fields j, f.state ≠ .stateOpen))
  | .applying _ fields => inferInstanceAs (Decidable (∀ j, ∀ f ∈ fields j, f.state ≠ .stateOpen))
  | .forcing _ => isFalse id

instance decidableQuiet [Fintype ι] (s : Cluster ι) (i : ι) : Decidable (s.Quiet i) :=
  decidable_of_iff ((∀ j, j ≠ i → (s.cells j).getState ≠ .stateOpen) ∧
      (∀ j, ∀ f ∈ s.hash j, f.state ≠ .stateOpen) ∧ ∀ p ∈ s.pushes, QuietPhase p.phase)
    ⟨fun h => ⟨h.1, h.2.1, h.2.2⟩, fun h => ⟨h.cells, h.hash, h.pushes⟩⟩

def Settled (g : RedisSyncer) (s : Cluster ι) : Label ι → Prop
  | .call i k =>
    (s.cells i).getState = .stateHalfOpen → k = .recordSuccess →
      ((s.cells i).step g.cb (k.call s.clock)).getState = .stateClosed → s.Quiet i
  | _ => True

instance decidableSettled [Fintype ι] (s : Cluster ι) : (l : Label ι) → Decidable (Settled g s l)
  | .call i _ => inferInstanceAs (Decidable (_ → _ → _ → s.Quiet i))
  | .wait _ => isTrue trivial
  | .tick _ => isTrue trivial
  | .push _ _ => isTrue trivial
  | .expire => isTrue trivial

theorem setCell_pushes {i : ι} {cell : Cell} {p : Push ι} (hp : p ∈ (s.setCell i cell).pushes) :
    p ∈ s.pushes ∨ p.phase = .start := by
  unfold setCell at hp
  dsimp only at hp
  split at hp
  · rcases List.mem_append.mp hp with hp | hp
    · exact Or.inl hp
    · rw [List.mem_singleton.mp hp]
      exact Or.inr rfl
  · exact Or.inl hp

theorem setCell_fresh {i : ι} {cell : Cell} (h : ∀ p ∈ s.pushes, s'.FreshPhase p.phase) :
    ∀ p ∈ (s.setCell i cell).pushes, s'.FreshPhase p.phase := by
  intro p hp
  rcases setCell_pushes hp with hp | hp
  · exact h p hp
  · rw [hp]
    trivial

omit [DecidableEq ι] in
theorem QuietPhase.fresh {phase : Phase ι} (h : QuietPhase phase) : s.FreshPhase phase := by
  cases phase with
  | start => trivial
  | pushing state failures began => exact fun ho => absurd ho h
  | read fields => exact fun j f hf ho => absurd ho (h j f hf)
  | applying now fields => exact fun j f hf ho => absurd ho (h j f hf)
  | forcing began => exact h.elim

theorem localCall_open {i j : ι} {k : Local}
    (ho : ((s.localCall g i k).cells j).getState = .stateOpen) :
    ((s.cells j).getState = .stateOpen ∧ (s.localCall g i k).began j = s.began j) ∨
      ((s.localCall g i k).began j = s.steps ∧ s.steps ∈ (s.localCall g i k).trips) := by
  change (Function.update s.cells i _ j).getState = .stateOpen at ho
  change (_ ∧ (if _ then Function.update s.began i s.steps else s.began) j = s.began j) ∨
    ((if _ then Function.update s.began i s.steps else s.began) j = s.steps ∧
      s.steps ∈ if _ then s.steps :: s.trips else s.trips)
  by_cases hj : j = i
  · subst hj
    rw [Function.update_self] at ho
    by_cases hpre : (s.cells j).getState = .stateOpen
    · exact .inl ⟨hpre, by rw [if_neg fun hc => hc.1 hpre]⟩
    · right
      rw [if_pos ⟨hpre, ho⟩, if_pos ⟨hpre, ho⟩, Function.update_self]
      exact ⟨rfl, List.mem_cons_self ..⟩
  · rw [Function.update_of_ne hj] at ho
    refine .inl ⟨ho, ?_⟩
    split
    · exact Function.update_of_ne hj ..
    · rfl

theorem localCall_trips {i : ι} {k : Local} {t : ℕ} (ht : t ∈ s.trips) :
    t ∈ (s.localCall g i k).trips := by
  change t ∈ if _ then s.steps :: s.trips else s.trips
  split
  · exact List.mem_cons_of_mem _ ht
  · exact ht

theorem Causal.recovery (h : s.Causal) {i : ι} {k : Local} (hq : s.Quiet i)
    (hrec : (s.cells i).getState = .stateHalfOpen ∧ k = .recordSuccess ∧
      ((s.cells i).step g.cb (k.call s.clock)).getState = .stateClosed) :
    (s.localCall g i k).counted.Causal := by
  constructor
  · intro j t ht
    change (if _ then Function.update s.recovered i (some s.steps) else s.recovered) j = some t at ht
    rw [if_pos hrec] at ht
    change t < s.steps + 1
    by_cases hj : j = i
    · rw [hj, Function.update_self] at ht
      have := Option.some.inj ht
      omega
    · rw [Function.update_of_ne hj] at ht
      have := h.past j t ht
      omega
  · intro j hopen
    change (Function.update s.cells i _ j).getState = .stateOpen at hopen
    by_cases hj : j = i
    · rw [hj, Function.update_self, hrec.2.2] at hopen
      cases hopen
    · rw [Function.update_of_ne hj] at hopen
      exact absurd hopen (hq.cells j hj)
  · intro j f hf hopen
    exact absurd hopen (hq.hash j f hf)
  · exact setCell_fresh fun p hp => (hq.pushes p hp).fresh

theorem Causal.localCall (h : s.Causal) {i : ι} {k : Local} (hok : Settled g s (.call i k)) :
    (s.localCall g i k).counted.Causal := by
  by_cases hrec : (s.cells i).getState = .stateHalfOpen ∧ k = .recordSuccess ∧
      ((s.cells i).step g.cb (k.call s.clock)).getState = .stateClosed
  · exact h.recovery (hok hrec.1 hrec.2.1 hrec.2.2) hrec
  have hrecovered : (s.localCall g i k).recovered = s.recovered := if_neg hrec
  have htrips : ∀ t ∈ s.trips, t ∈ (s.localCall g i k).trips := fun t => localCall_trips
  constructor
  · intro j t ht
    have := h.past j t (hrecovered ▸ ht)
    change t < s.steps + 1
    omega
  · intro j hopen
    change Fresh _ ((s.localCall g i k).began j)
    rcases localCall_open hopen with ⟨hpre, hbegan⟩ | ⟨hbegan, htrip⟩
    · rw [hbegan]
      exact (h.cells j hpre).mono htrips hrecovered
    · rw [hbegan]
      exact ⟨htrip, fun j' t ht => h.past j' t (hrecovered ▸ ht)⟩
  · exact h.hash.mono htrips hrecovered
  · exact setCell_fresh fun p hp => (h.pushes p hp).mono htrips hrecovered

omit [DecidableEq ι] in
theorem Causal.of_same (h : s.Causal) (s' : Cluster ι) (hn : s'.steps = s.steps)
    (ht : s'.trips = s.trips) (hr : s'.recovered = s.recovered)
    (hcells : ∀ i, (s'.cells i).getState = .stateOpen → s.Fresh (s'.began i))
    (hhash : s.FreshFields s'.hash) (hpushes : ∀ p ∈ s'.pushes, s.FreshPhase p.phase) :
    s'.counted.Causal := by
  have ht' : ∀ t ∈ s.trips, t ∈ s'.trips := by simp [ht]
  constructor
  · intro i t hi
    have := h.past i t (hr ▸ hi)
    change t < s'.steps + 1
    omega
  · intro i ho
    exact (hcells i ho).mono ht' hr
  · exact hhash.mono ht' hr
  · intro p hp
    exact (hpushes p hp).mono ht' hr

omit [DecidableEq ι] in
theorem Causal.setPhase (h : s.Causal) (k : ℕ) (i : ι) {phase : Phase ι}
    (hp : s.FreshPhase phase) : (s.setPhase k i phase).counted.Causal := by
  refine h.of_same _ rfl rfl rfl h.cells h.hash ?_
  intro p hmem
  rcases List.mem_or_eq_of_mem_set hmem with hmem | rfl
  · exact h.pushes p hmem
  · exact hp

omit [DecidableEq ι] in
theorem Causal.endPush (h : s.Causal) (k : ℕ) :
    (s.endPush k).counted.Causal :=
  h.of_same _ rfl rfl rfl h.cells h.hash fun p hp => h.pushes p (List.mem_of_mem_eraseIdx hp)

theorem Causal.runScript (h : s.Causal) (k : ℕ) (i : ι) {state : State} {failures : ℤ} {began : ℕ}
    (hp : state = .stateOpen → s.Fresh began) :
    ((s.runScript g i state failures began).setPhase k i
      (.read (s.runScript g i state failures began).hash)).counted.Causal := by
  have hhash : s.FreshFields (s.runScript g i state failures began).hash := by
    unfold Cluster.runScript
    split
    · intro j f hf
      exact absurd hf (by simp)
    · intro j f hf ho
      by_cases hj : j = i
      · simp only [hj, Function.update_self] at hf
        cases hf
        exact hp ho
      · simp only [Function.update_of_ne hj] at hf
        exact h.hash j f hf ho
  have hsame : ∀ {β : Type} (f : Cluster ι → β),
      (∀ (s : Cluster ι) hash expiry, f { s with hash := hash, expiry := expiry } = f s) →
      f (s.runScript g i state failures began) = f s := by
    intro β f hf
    unfold Cluster.runScript
    split <;> exact hf s _ _
  refine h.of_same _ (hsame (·.steps) fun _ _ _ => rfl) (hsame (·.trips) fun _ _ _ => rfl)
    (hsame (·.recovered) fun _ _ _ => rfl) ?_ hhash ?_
  rotate_left
  · intro p hmem
    change p ∈ (s.runScript g i state failures began).pushes.set k _ at hmem
    rw [hsame (·.pushes) fun _ _ _ => rfl] at hmem
    rcases List.mem_or_eq_of_mem_set hmem with hmem | rfl
    · exact h.pushes p hmem
    · exact hhash
  · intro j ho
    change ((s.runScript g i state failures began).cells j).getState = .stateOpen at ho
    change s.Fresh ((s.runScript g i state failures began).began j)
    rw [hsame (·.cells) fun _ _ _ => rfl] at ho
    rw [hsame (·.began) fun _ _ _ => rfl]
    exact h.cells j ho

theorem Causal.force (h : s.Causal) (k : ℕ) (i : ι) {began : ℕ} (hp : s.Fresh began) :
    ((s.endPush k).force g i began).counted.Causal := by
  refine h.of_same _ rfl rfl rfl ?_ h.hash ?_
  rotate_left
  · exact setCell_fresh fun p hmem => h.pushes p (List.mem_of_mem_eraseIdx hmem)
  · intro j ho
    change (Function.update s.cells i _ j).getState = .stateOpen at ho
    change s.Fresh ((if (s.cells i).getState ≠ .stateOpen then Function.update s.began i began
      else s.began) j)
    by_cases hj : j = i
    · split
      · rw [hj, Function.update_self]
        exact hp
      · rename_i hopen
        rw [hj]
        exact h.cells i (not_not.mp hopen)
    · rw [Function.update_of_ne hj] at ho
      split
      · rw [Function.update_of_ne hj]
        exact h.cells j ho
      · exact h.cells j ho

theorem Causal.advance (h : s.Causal) {k : ℕ} {push : Push ι} {p : Progress ι}
    (hk : s.pushes[k]? = some push) (hs : s.advance g k push p = some s') :
    s'.counted.Causal := by
  have hphase := h.pushes push (List.mem_of_getElem? hk)
  cases p with
  | readLocal =>
    simp only [Cluster.advance] at hs
    split at hs
    · cases hs
      exact h.setPhase k push.replica fun ho => h.cells push.replica ho
    · cases hs
  | eval =>
    simp only [Cluster.advance] at hs
    split at hs
    · rename_i state failures began hp
      cases hs
      rw [hp] at hphase
      exact h.runScript k push.replica hphase
    · cases hs
  | lose =>
    simp only [Cluster.advance] at hs
    split at hs
    · cases hs
      exact h.endPush k
    · cases hs
  | enter =>
    simp only [Cluster.advance] at hs
    split at hs
    · rename_i fields hp
      cases hs
      rw [hp] at hphase
      exact h.setPhase k push.replica hphase
    · cases hs
  | examine sibling =>
    have hstay : s.counted.Causal := h.of_same _ rfl rfl rfl h.cells h.hash h.pushes
    simp only [Cluster.advance] at hs
    split at hs
    · rename_i now fields hp
      rw [hp] at hphase
      split at hs
      · cases hs
        exact hstay
      · split at hs
        · rename_i f hf
          split at hs
          · rename_i hacts
            cases hs
            have hopen : f.state = .stateOpen := by
              unfold actsOn at hacts
              simp only [Bool.and_eq_true, decide_eq_true_eq] at hacts
              exact hacts.1.2
            exact h.setPhase k push.replica (hphase sibling f hf hopen)
          · cases hs
            exact hstay
        · cases hs
          exact hstay
    · cases hs
  | finish =>
    simp only [Cluster.advance] at hs
    split at hs
    · cases hs
      exact h.endPush k
    · cases hs
  | force =>
    simp only [Cluster.advance] at hs
    split at hs
    · rename_i began hp
      cases hs
      rw [hp] at hphase
      exact h.force k push.replica hphase
    · cases hs

theorem Causal.step (h : s.Causal) {l : Label ι} (hok : Settled g s l)
    (hs : s.step g l = some s') : s'.Causal := by
  obtain ⟨t, hmove, rfl⟩ := Option.map_eq_some_iff.mp hs
  cases l with
  | wait t' =>
    simp only [move] at hmove
    split at hmove
    · cases hmove
      exact h.of_same _ rfl rfl rfl h.cells h.hash h.pushes
    · cases hmove
  | call i k =>
    cases hmove
    exact h.localCall hok
  | tick i =>
    cases hmove
    refine h.of_same _ rfl rfl rfl h.cells h.hash ?_
    intro p hp
    rcases List.mem_append.mp hp with hp | hp
    · exact h.pushes p hp
    · rw [List.mem_singleton.mp hp]
      trivial
  | push k p =>
    obtain ⟨push, hk, hadv⟩ := Option.bind_eq_some_iff.mp hmove
    exact h.advance hk hadv
  | expire =>
    simp only [move] at hmove
    split at hmove
    · cases hmove
      exact h.of_same _ rfl rfl rfl h.cells (fun j f hf => absurd hf (by simp)) h.pushes
    · cases hmove

omit [DecidableEq ι] in
theorem causal_init (now : ℤ) : (init now : Cluster ι).Causal where
  past := by simp [init]
  cells := by simp [init, Cell.getState, Cell.stateFor]
  hash := by simp [FreshFields, init]
  pushes := by simp [init]

end Cluster

/-- Where recoveries find the cluster quiet, whenever a recovered replica is about to be forced
open, the episode that forces it began with a trip after the recovery. -/
theorem forced_opens_are_not_echoes (g : RedisSyncer) (now : ℤ) (ls : List (Label ι))
    (s : Cluster ι)
    (hm : Meets (Cluster.step g) (Cluster.Settled g) (Cluster.init now) ls)
    (hr : exec (Cluster.step g) (Cluster.init now) ls = some s)
    (k : ℕ) (i : ι) (began t : ℕ) (hk : s.pushes[k]? = some ⟨i, .forcing began⟩)
    (ht : s.recovered i = some t) : began ∈ s.trips ∧ t < began := by
  have hc : s.Causal := exec_invariant (fun _ _ _ hi hok hs => hi.step hok hs) hm hr
    (Cluster.causal_init now)
  have hfresh : s.Fresh began := hc.pushes _ (List.mem_of_getElem? hk)
  exact ⟨hfresh.1, hfresh.2 i t ht⟩

/-- Breakers that trip on one failure, probe at once and close on one success. -/
def quickSyncer : RedisSyncer where
  cb := newCircuitBreakerWithConfig { quickConfig with successThreshold := 1 }
  ttl := 30 * Time.second

/-- An instant the given number of seconds after the Unix epoch. -/
def atSecond (n : ℤ) : ℤ := Time.unixEpoch + n * Time.second

/-- A replica recovers while nothing else is open, and then the other one trips. -/
def laterTrip : List (Label Bool) :=
  [.call true .recordFailure, .call true .allow, .call true .recordSuccess,
    .call false .recordFailure, .push 1 .readLocal, .push 1 .eval,
    .push 0 .readLocal, .push 0 .eval, .push 0 .enter, .push 0 (.examine false)]

def Phase.isForcing (began : ℕ) : Phase ι → Bool
  | .forcing b => b = began
  | _ => false

omit [DecidableEq ι] in
theorem Phase.isForcing_iff {began : ℕ} {phase : Phase ι} :
    phase.isForcing began = true ↔ phase = .forcing began := by
  cases phase <;> simp [isForcing]

/-- The replica that has recovered is about to be forced open by the later trip. -/
theorem forced_opens_are_not_echoes_laterTrip :
    ∃ s ∈ exec (Cluster.step quickSyncer) (Cluster.init (atSecond 100)) laterTrip,
      (s.pushes[0]?.map fun p => p.replica) = some true ∧ s.recovered true = some 2 ∧
      3 ∈ s.trips ∧ 2 < 3 := by
  have hm : Meets (Cluster.step quickSyncer) (Cluster.Settled quickSyncer)
      (Cluster.init (atSecond 100)) laterTrip := by decide +kernel
  obtain ⟨s, hs, hpush, hrec⟩ :
      ∃ s ∈ exec (Cluster.step quickSyncer) (Cluster.init (atSecond 100)) laterTrip,
      (s.pushes[0]?.any fun p => p.replica && p.phase.isForcing 3) = true ∧
        s.recovered true = some 2 := by
    decide +kernel
  obtain ⟨⟨i, phase⟩, hk, hp⟩ := (Option.any_eq_true _ _).mp hpush
  rw [Bool.and_eq_true, Phase.isForcing_iff] at hp
  obtain ⟨rfl, rfl⟩ := hp
  refine ⟨s, hs, by rw [hk]; rfl, hrec, ?_⟩
  exact forced_opens_are_not_echoes quickSyncer (atSecond 100) laterTrip s hm hs 0 true 3 2 hk hrec

/-- One replica trips and the other is forced open, recovers, and syncs again once the first has
pushed its state a second time. -/
def echo : List (Label Bool) :=
  [.call false .recordFailure, .push 0 .readLocal, .push 0 .eval, .push 0 .enter, .push 0 .finish,
    .tick true, .push 0 .readLocal, .push 0 .eval, .push 0 .enter, .push 0 (.examine false),
    .push 0 .force, .push 0 .readLocal, .push 0 .lose,
    .wait (atSecond 101), .call true .allow, .call true .recordSuccess,
    .wait (atSecond 102), .tick false, .push 0 .readLocal, .push 0 .eval, .push 0 .enter,
    .push 0 .finish,
    .tick true, .push 0 .readLocal, .push 0 .eval, .push 0 .enter, .push 0 (.examine false)]

/-- The replica that has recovered is about to be forced open again, and the only trip
there ever was came before its recovery. -/
theorem restamped_open_is_an_echo :
    ∃ s ∈ exec (Cluster.step quickSyncer) (Cluster.init (atSecond 100)) echo,
      (∃ t, s.recovered true = some t ∧ ∀ trip ∈ s.trips, trip < t) ∧
      (s.cells true).getState = .stateClosed ∧
      ∃ s' ∈ s.step quickSyncer (.push 0 .force), (s'.cells true).getState = .stateOpen := by
  obtain ⟨s, hs, hrec, hrest⟩ :
      ∃ s ∈ exec (Cluster.step quickSyncer) (Cluster.init (atSecond 100)) echo,
      (s.recovered true = some 15 ∧ ∀ trip ∈ s.trips, trip < 15) ∧
        (s.cells true).getState = .stateClosed ∧
        ∃ s' ∈ s.step quickSyncer (.push 0 .force), (s'.cells true).getState = .stateOpen := by
    decide +kernel
  exact ⟨s, hs, ⟨15, hrec⟩, hrest⟩

end ReverseProxyLb.Circuit
