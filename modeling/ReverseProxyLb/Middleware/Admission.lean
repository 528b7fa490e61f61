import ReverseProxyLb.Lib.Crowd

/-! `Admission` keeps a buffered channel with a token for every request it has let in. A
receiver hands its place to a blocked sender at once; here the sender takes it in a step of
its own. -/
namespace ReverseProxyLb.Middleware
open Lib

/-- The arguments of `Admission`. -/
structure Admission where
  maxRequests : ℤ
  maxQueue : ℤ
  queueTimeout : ℤ

namespace Admission

/-- How a request came to its handler: past a disabled check, or with a slot. -/
inductive Path where
  | unlimited
  | fast
  | queued
  deriving DecidableEq, Repr

/-- How a request ends; a rejection has a status and a text. -/
inductive Outcome where
  | served
  | panicked
  | rejected (code : ℤ) (msg : String)
  | abandoned
  deriving DecidableEq, Repr

def unavailable (msg : String) : Outcome := .rejected 503 msg

inductive Phase where
  | arrived
  /-- The fast path found no slot. -/
  | turnedAway
  /-- `queued.Add(1)` has returned. -/
  | counted (q : ℤ)
  | waiting
  | running (path : Path)
  /-- The handler is over, and the deferred functions are to run. -/
  | finishing (path : Path) (o : Outcome)
  /-- Only `queued.Add(-1)` is left. -/
  | leaving (o : Outcome)
  | done (o : Outcome)
  deriving DecidableEq, Repr

/-- A request, with how often it has sent a token and received one. -/
structure Visit where
  phase : Phase := .arrived
  acquired : ℕ := 0
  released : ℕ := 0
  deriving DecidableEq, Repr

/-- The channel, by the number of tokens in it, and the counter of those queued. -/
structure Slots where
  sem : ℕ := 0
  queued : ℤ := 0
  deriving DecidableEq, Repr

/-- What decides how a request goes on: its own code, or one of the other events. -/
inductive Choice where
  | go
  | timeout
  | cancel
  | panic
  deriving DecidableEq, Repr

/-- `sem <- struct{}{}`. -/
def acquire (s : Slots) (r : Visit) (path : Path) : Slots × Visit :=
  ({ s with sem := s.sem + 1 }, { r with phase := .running path, acquired := r.acquired + 1 })

/-- `<-sem`, which blocks on an empty channel. -/
def release (s : Slots) (r : Visit) (after : Phase) : Option (Slots × Visit) :=
  if 0 < s.sem then
    some ({ s with sem := s.sem - 1 }, { r with phase := after, released := r.released + 1 })
  else none

def goto (s : Slots) (r : Visit) (phase : Phase) : Slots × Visit := (s, { r with phase := phase })

section
variable (g : Admission)

def act (s : Slots) (r : Visit) (a : Choice) : Option (Slots × Visit) :=
  match r.phase, a with
  | .arrived, .go =>
    if g.maxRequests ≤ 0 then some (goto s r (.running .unlimited))
    else if (s.sem : ℤ) < g.maxRequests then some (acquire s r .fast)
    else some (goto s r .turnedAway)
  | .turnedAway, .go =>
    if g.maxQueue ≤ 0 ∨ g.queueTimeout ≤ 0 then
      some (goto s r (.done (unavailable "service unavailable: too many requests in flight")))
    else some (goto { s with queued := s.queued + 1 } r (.counted (s.queued + 1)))
  | .counted q, .go =>
    if g.maxQueue < q then
      some (goto s r (.leaving (unavailable "service unavailable: request queue full")))
    else some (goto s r .waiting)
  | .waiting, .go => if (s.sem : ℤ) < g.maxRequests then some (acquire s r .queued) else none
  | .waiting, .timeout =>
    some (goto s r (.leaving (unavailable "service unavailable: timed out waiting for slot")))
  | .waiting, .cancel => some (goto s r (.leaving .abandoned))
  | .running path, .go => some (goto s r (.finishing path .served))
  | .running path, .panic => some (goto s r (.finishing path .panicked))
  | .finishing .unlimited o, .go => some (goto s r (.done o))
  | .finishing .fast o, .go => release s r (.done o)
  | .finishing .queued o, .go => release s r (.leaving o)
  | .leaving o, .go => some (goto { s with queued := s.queued - 1 } r (.done o))
  | _, _ => none

def rules : Crowd.Rules Slots Visit Unit Choice Empty where
  enter s _ := some (s, {})
  act := g.act
  outside _ e := e.elim

def init : Crowd Slots Visit := ⟨{}, []⟩

end

def Path.limited : Path → Bool
  | .unlimited => false
  | .fast => true
  | .queued => true

def Phase.holds : Phase → Bool
  | .running path => path.limited
  | .finishing path _ => path.limited
  | _ => false

def Phase.isRunning : Phase → Bool
  | .running _ => true
  | _ => false

def Phase.isDone : Phase → Bool
  | .done _ => true
  | _ => false

def Phase.engaged : Phase → Bool
  | .running _ => true
  | .finishing _ _ => true
  | _ => false

def Visit.held (r : Visit) : ℤ := if r.phase.holds then 1 else 0

/-- The request has not been at a `select` that it could leave with a slot. -/
def Phase.outside : Phase → Bool
  | .arrived | .turnedAway | .counted _ | .waiting => true
  | _ => false

theorem Phase.engaged_of_isRunning {p : Phase} (h : p.isRunning) : p.engaged := by
  cases p with
  | running => exact h
  | _ => cases h

theorem Phase.not_holds_of_isDone {p : Phase} (h : p.isDone) : p.holds = false := by
  cases p with
  | done => rfl
  | _ => cases h

/-- The token is sent at most once, received at most once, and never before it is sent. -/
structure Visit.Sound (r : Visit) : Prop where
  balance : r.acquired = r.released + if r.phase.holds then 1 else 0
  once : r.acquired ≤ 1
  fresh : r.phase.outside → r.acquired = 0
  limited : r.phase.engaged → r.phase.holds

variable {g : Admission} {s s' : Slots} {r r' : Visit} {a : Choice}

section
attribute [local simp] goto Phase.holds Path.limited Phase.outside Phase.engaged

theorem act_cases (h : g.act s r a = some (s', r')) :
    (s'.sem = s.sem ∧ r'.acquired = r.acquired ∧ r'.released = r.released ∧
        r'.phase.holds = r.phase.holds ∧ (r'.phase.outside → r.phase.outside) ∧
        (r'.phase.engaged → r.phase.engaged ∨ g.maxRequests ≤ 0)) ∨
      ((s.sem : ℤ) < g.maxRequests ∧ r.phase.outside ∧
        ∃ path, path.limited ∧ (s', r') = acquire s r path) ∨
      (r.phase.holds ∧ 0 < s.sem ∧ s'.sem = s.sem - 1 ∧ r'.acquired = r.acquired ∧
        r'.released = r.released + 1 ∧ r'.phase.holds = false ∧ r'.phase.outside = false ∧
        r'.phase.engaged = false) := by
  unfold act at h
  split at h
  case h_1 hp =>
    split_ifs at h with hmax hsem
    · cases h
      simp [hp, hmax]
    · cases h
      exact .inr (.inl ⟨hsem, by rw [hp]; rfl, .fast, rfl, rfl⟩)
    · cases h
      simp [hp]
  case h_2 hp => split_ifs at h <;> cases h <;> simp [hp]
  case h_3 q hp => split_ifs at h <;> cases h <;> simp [hp]
  case h_4 hp =>
    split_ifs at h with hsem
    cases h
    exact .inr (.inl ⟨hsem, by rw [hp]; rfl, .queued, rfl, rfl⟩)
  case h_10 o hp =>
    unfold release at h
    split_ifs at h with hsem
    cases h
    simp [hp, hsem]
  case h_11 o hp =>
    unfold release at h
    split_ifs at h with hsem
    cases h
    simp [hp, hsem]
  case h_13 => cases h
  -- the others end the wait, the handler or the visit, and leave the channel alone
  all_goals
    rename_i hp
    cases h
    simp [hp]

end

theorem Visit.Sound.act (hg : 1 ≤ g.maxRequests) (hr : r.Sound) (h : g.act s r a = some (s', r')) :
    r'.Sound := by
  have hbalance := hr.balance
  rcases Admission.act_cases h with ⟨-, hacq, hrel, hholds, hout, hrun⟩ | ⟨-, hout, path, hpath, heq⟩ |
    ⟨hholds, -, -, hacq, hrel, hnone, hout, hrun⟩
  · constructor
    · rw [hacq, hrel, hholds, hbalance]
    · rw [hacq]
      exact hr.once
    · intro ho
      rw [hacq]
      exact hr.fresh (hout ho)
    · intro he
      rw [hholds]
      apply hr.limited
      apply (hrun he).resolve_right
      omega
  · cases heq
    have hfresh := hr.fresh hout
    have hholds : (Phase.running path).holds = true := hpath
    constructor
    · change r.acquired + 1 = r.released + if (Phase.running path).holds = true then 1 else 0
      rw [if_pos hholds]
      omega
    · change r.acquired + 1 ≤ 1
      omega
    · intro ho
      cases ho
    · intro _
      exact hpath
  · rw [if_pos hholds] at hbalance
    constructor
    · rw [hacq, hrel, hnone, hbalance]
      rfl
    · rw [hacq]
      exact hr.once
    · intro ho
      rw [hout] at ho
      cases ho
    · intro hr'
      rw [hrun] at hr'
      cases hr'

theorem held_act (h : g.act s r a = some (s', r')) : (s'.sem : ℤ) = s.sem - r.held + r'.held := by
  unfold Visit.held
  rcases Admission.act_cases h with ⟨hsem, -, -, hholds, -⟩ | ⟨-, hout, path, hpath, heq⟩ |
    ⟨hholds, hpos, hsem, -, -, hnone, -⟩
  · rw [hsem, hholds]
    ring
  · cases heq
    have hnone : r.phase.holds = false := by
      cases hp : r.phase <;> simp_all [Phase.outside, Phase.holds]
    have hholds : (Phase.running path).holds = true := hpath
    simp [hnone, hholds]
  · rw [hsem, if_pos hholds, hnone]
    simp
    omega

def Guarded (g : Admission) : Crowd Slots Visit → Prop :=
  Crowd.Holds (fun s => (s.sem : ℤ) ≤ g.maxRequests) fun _ r => r.Sound

variable {c c' : Crowd Slots Visit} {m : Crowd.Move Unit Choice Empty}

theorem Guarded.step (hg : 1 ≤ g.maxRequests) (h : g.Guarded c) (hs : c.step g.rules m = some c') :
    g.Guarded c' := by
  apply Crowd.holds_step (fun _ _ => True) _ _ _ h trivial hs
  · intro s _ s' r hs _ hr
    cases hr
    exact ⟨hs, ⟨rfl, Nat.zero_le _, fun _ => rfl, nofun⟩, fun _ => id⟩
  · intro s _ r a s' r' hs hsound _ hr
    refine ⟨?_, hsound.act hg hr, fun _ => id⟩
    rcases act_cases hr with ⟨hsem, -⟩ | ⟨hlt, -, path, -, heq⟩ | ⟨-, -, hsem, -⟩
    · rw [hsem]
      exact hs
    · cases heq
      push_cast
      omega
    · rw [hsem]
      omega
  · intro s e
    exact e.elim

theorem tokens_step (h : (c.shared.sem : ℤ) = c.total Visit.held) (hs : c.step g.rules m = some c') :
    (c'.shared.sem : ℤ) = c'.total Visit.held := by
  apply Crowd.total_step (n := fun s => (s.sem : ℤ)) _ _ _ h hs
  · intro s _ s' r hr
    cases hr
    simp [Visit.held, Phase.holds]
  · intro s r a s' r' hr
    exact held_act hr
  · intro s e
    exact e.elim

def holders (c : Crowd Slots Visit) : ℕ := c.parties.countP (·.phase.holds)

def handlers (c : Crowd Slots Visit) : ℕ := c.parties.countP (·.phase.isRunning)

theorem total_held (c : Crowd Slots Visit) : c.total Visit.held = holders c := by
  unfold Crowd.total holders
  induction c.parties with
  | nil => rfl
  | cons r rs ih =>
    rw [List.map_cons, List.sum_cons, List.countP_cons, ih]
    unfold Visit.held
    push_cast
    ring

theorem handlers_le_holders (h : g.Guarded c) : handlers c ≤ holders c := by
  apply List.countP_mono_left
  intro r hr hrun
  exact (h.each r hr).limited (Phase.engaged_of_isRunning hrun)

theorem guarded_run (hg : 1 ≤ g.maxRequests) {ms : List (Crowd.Move Unit Choice Empty)}
    (hr : exec (Crowd.step g.rules) init ms = some c) :
    g.Guarded c ∧ (c.shared.sem : ℤ) = holders c := by
  have hkeep : ∀ c m c', (g.Guarded c ∧ (c.shared.sem : ℤ) = c.total Visit.held) →
      Crowd.step g.rules c m = some c' → g.Guarded c' ∧ (c'.shared.sem : ℤ) = c'.total Visit.held :=
    fun c m c' h hs => ⟨h.1.step hg hs, tokens_step h.2 hs⟩
  have hinit : g.Guarded init := by
    constructor
    · change (0 : ℤ) ≤ g.maxRequests
      omega
    · intro r hr
      cases hr
  rw [← total_held]
  exact exec_keeps hkeep hr ⟨hinit, rfl⟩

theorem act_arrived (hg : 1 ≤ g.maxRequests) (hr : r.phase = .arrived)
    (hs : (s.sem : ℤ) < g.maxRequests) : g.act s r .go = some (acquire s r .fast) := by
  unfold act
  simp only [hr]
  rw [if_neg (by omega), if_pos hs]

theorem act_finishing {path : Path} {o : Outcome} (hr : r.phase = .finishing path o)
    (hpath : path.limited) (hs : 0 < s.sem) :
    ∃ s' r', g.act s r .go = some (s', r') ∧ r'.released = r.released + 1 := by
  unfold act
  cases path with
  | unlimited => cases hpath
  | fast => simp [hr, release, hs]
  | queued => simp [hr, release, hs]

theorem holders_pos (hr : r ∈ c.parties) (hh : r.phase.holds) : 0 < holders c :=
  List.countP_pos_iff.mpr ⟨r, hr, hh⟩

/-- No more handlers run than there are slots; a request takes a slot at most once and gives it
back once, which nothing can keep it from; and a request that tries the fast path while a slot is
free runs its handler at once. -/
theorem admission_ceiling (g : Admission) (hg : 1 ≤ g.maxRequests)
    (ms : List (Crowd.Move Unit Choice Empty)) (c : Crowd Slots Visit)
    (hr : exec (Crowd.step g.rules) init ms = some c) :
    (handlers c : ℤ) ≤ g.maxRequests ∧ c.shared.sem = holders c ∧
      (∀ r ∈ c.parties, r.released ≤ r.acquired ∧ r.acquired ≤ 1 ∧
        (r.phase.isDone → r.released = r.acquired) ∧
        (r.phase.isRunning → r.acquired = 1 ∧ r.released = 0)) ∧
      (∀ i r path o, c.parties[i]? = some r → r.phase = .finishing path o →
        ∃ s' r', c.step g.rules (.act i .go) = some ⟨s', c.parties.set i r'⟩ ∧
          r'.released = r.released + 1) ∧
      ∀ i r, c.parties[i]? = some r → r.phase = .arrived → (holders c : ℤ) < g.maxRequests →
        c.step g.rules (.act i .go) = some ⟨{ c.shared with sem := c.shared.sem + 1 },
          c.parties.set i { r with phase := .running .fast, acquired := r.acquired + 1 }⟩ := by
  obtain ⟨hguard, hsem⟩ := guarded_run hg hr
  have hbound : (c.shared.sem : ℤ) ≤ g.maxRequests := hguard.shared
  have hle := handlers_le_holders hguard
  refine ⟨by omega, by omega, ?_, ?_, ?_⟩
  · intro r hr
    have hsound := hguard.each r hr
    have hbalance := hsound.balance
    have honce := hsound.once
    refine ⟨by omega, honce, fun hdone => ?_, fun hrun => ?_⟩
    · rw [Phase.not_holds_of_isDone hdone] at hbalance
      exact hbalance.symm
    · rw [if_pos (hsound.limited (Phase.engaged_of_isRunning hrun))] at hbalance
      omega
  · intro i r path o hi hp
    have hmem := List.mem_of_getElem? hi
    have hholds : r.phase.holds := (hguard.each r hmem).limited (by rw [hp]; rfl)
    have hpos := holders_pos hmem hholds
    have hpath : path.limited := by rwa [hp] at hholds
    obtain ⟨s', r', hact, hrel⟩ := act_finishing (g := g) (s := c.shared) hp hpath (by omega)
    refine ⟨s', r', ?_, hrel⟩
    simp [Crowd.step, rules, hi, hact]
  · intro i r hi hp hfree
    have hact := act_arrived (s := c.shared) hg hp (by omega)
    simp [Crowd.step, rules, hi, hact, acquire]

/-- Two requests run, a third waits; the handler of the first panics, and a fourth request
arrives. -/
def thirdWaits : List (Crowd.Move Unit Choice Empty) :=
  [.enter (), .act 0 .go, .enter (), .act 1 .go, .enter (), .act 2 .go, .act 2 .go, .act 2 .go,
    .act 0 .panic, .enter ()]

theorem admission_ceiling_thirdWaits :
    ∃ c, exec (Crowd.step (rules ⟨2, 5, 1⟩)) init thirdWaits = some c ∧
      holders c = 2 ∧ (handlers c : ℤ) ≤ 2 := by
  obtain ⟨c, hc⟩ : ∃ c, exec (Crowd.step (rules ⟨2, 5, 1⟩)) init thirdWaits = some c := ⟨_, rfl⟩
  refine ⟨c, hc, ?_, (admission_ceiling ⟨2, 5, 1⟩ (by decide) thirdWaits c hc).1⟩
  have hholders : (exec (Crowd.step (rules ⟨2, 5, 1⟩)) init thirdWaits).map holders = some 2 := rfl
  rw [hc] at hholders
  exact Option.some.inj hholders

end Admission
end ReverseProxyLb.Middleware
