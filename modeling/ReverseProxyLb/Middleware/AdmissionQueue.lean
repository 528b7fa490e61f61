import ReverseProxyLb.Middleware.Admission

/-! `queued` is lowered in a deferred function, so it counts those who wait and those who
linger: requests from the queue until they have been served. -/
namespace ReverseProxyLb.Middleware.Admission
open Lib

def queueFull : Outcome := unavailable "service unavailable: request queue full"

variable (g : Admission)

/-- The request has missed the fast path, has been let into the queue, and waits for a slot. -/
def Phase.waits : Phase → Bool
  | .counted q => decide (q ≤ g.maxQueue)
  | .waiting => true
  | _ => false

/-- The request does not wait, and its deferred `queued.Add(-1)` has not run. -/
def Phase.lingers : Phase → Bool
  | .counted q => decide (g.maxQueue < q)
  | .running path => decide (path = .queued)
  | .finishing path _ => decide (path = .queued)
  | .leaving _ => true
  | _ => false

def Phase.refused : Phase → Bool
  | .counted q => decide (g.maxQueue < q)
  | .leaving o => decide (o = queueFull)
  | .done o => decide (o = queueFull)
  | .finishing _ o => decide (o = queueFull)
  | _ => false

/-- The request is in the count of `queued`. -/
def Phase.inCount : Phase → Bool
  | .counted _ => true
  | .waiting => true
  | .running path => decide (path = .queued)
  | .finishing path _ => decide (path = .queued)
  | .leaving _ => true
  | _ => false

theorem Phase.inCount_eq (p : Phase) : p.inCount = (p.waits g || p.lingers g) := by
  cases p with
  | counted q =>
    by_cases h : q ≤ g.maxQueue
    · simp [Phase.inCount, Phase.waits, h]
    · simp [Phase.inCount, Phase.waits, Phase.lingers, not_le.mp h]
  | _ => simp [Phase.inCount, Phase.waits, Phase.lingers]

theorem Phase.not_waits_and_lingers (p : Phase) : ¬ (p.waits g = true ∧ p.lingers g = true) := by
  rintro ⟨hw, hl⟩
  cases p with
  | counted q =>
    simp only [Phase.waits, Phase.lingers, decide_eq_true_eq] at hw hl
    omega
  | waiting => cases hl
  | _ => cases hw

def waiting (c : Crowd Slots Visit) : ℕ := c.parties.countP fun r => r.phase.waits g

def lingering (c : Crowd Slots Visit) : ℕ := c.parties.countP fun r => r.phase.lingers g

variable {g} {s s' : Slots} {r r' : Visit} {a : Choice} {c c' : Crowd Slots Visit}
  {m : Crowd.Move Unit Choice Empty}

theorem act_queue (h : g.act s r a = some (s', r')) :
    (s'.queued = s.queued ∧ r'.phase.inCount = r.phase.inCount ∧
      r'.phase.refused g = r.phase.refused g ∧
        (a = .go → r.phase = .turnedAway → g.maxQueue ≤ 0 ∨ g.queueTimeout ≤ 0)) ∨
      (a = .go ∧ r.phase = .turnedAway ∧ s'.queued = s.queued + 1 ∧
        r'.phase = .counted (s.queued + 1)) ∨
      (s'.queued = s.queued - 1 ∧ ∃ o, r.phase = .leaving o ∧ r'.phase = .done o) := by
  unfold act at h
  split at h
  case h_1 hp => split_ifs at h <;> cases h <;> simp [hp, Phase.inCount, Phase.refused]
  case h_2 hp =>
    split_ifs at h with hoff
    · cases h
      simp [hp, hoff, Phase.inCount, Phase.refused, queueFull, unavailable]
    · cases h
      simp [hp]
  case h_3 q hp =>
    split_ifs at h with hq
    · cases h
      simp [hp, hq, Phase.inCount, Phase.refused, queueFull]
    · cases h
      simp [hp, hq, Phase.inCount, Phase.refused]
  case h_4 hp =>
    split_ifs at h
    cases h
    simp [hp, Phase.inCount, Phase.refused]
  case h_10 o hp =>
    unfold release at h
    split_ifs at h
    cases h
    simp [hp, Phase.inCount, Phase.refused]
  case h_11 o hp =>
    unfold release at h
    split_ifs at h
    cases h
    simp [hp, Phase.inCount, Phase.refused]
  case h_12 o hp =>
    cases h
    simp [hp]
  case h_13 => cases h
  -- the others end the wait, the handler or the visit
  all_goals
    rename_i hp
    cases h
    simp [hp, Phase.inCount, Phase.refused, queueFull, unavailable]

theorem counter_step (h : c.shared.queued = c.total fun r => if r.phase.inCount then 1 else 0)
    (hs : c.step g.rules m = some c') :
    c'.shared.queued = c'.total fun r => if r.phase.inCount then 1 else 0 := by
  apply Crowd.total_step (n := Slots.queued) _ _ _ h hs
  · intro s _ s' r hr
    cases hr
    simp [Phase.inCount]
  · intro s r a s' r' hr
    rcases act_queue hr with ⟨hsame, hcount, -⟩ | ⟨-, hp, hadd, hp'⟩ | ⟨hsub, o, hp, hp'⟩
    · rw [hsame, hcount]
      ring
    · simp [hp, hp', hadd, Phase.inCount]
    · simp [hp, hp', hsub, Phase.inCount]
  · intro s e
    exact e.elim

theorem counter_run {ms : List (Crowd.Move Unit Choice Empty)}
    (hr : exec (Crowd.step g.rules) init ms = some c) :
    c.shared.queued = waiting g c + lingering g c := by
  have hcount : c.shared.queued = c.total fun r => if r.phase.inCount then 1 else 0 :=
    exec_keeps (fun _ _ _ h hs => counter_step h hs) hr rfl
  rw [hcount, Crowd.total_indicator fun r : Visit => r.phase.inCount]
  unfold waiting lingering
  induction c.parties with
  | nil => rfl
  | cons r rs ih =>
    have hor := r.phase.inCount_eq g
    have hand := r.phase.not_waits_and_lingers g
    simp only [List.countP_cons]
    push_cast
    rw [ih]
    cases hw : r.phase.waits g <;> cases hl : r.phase.lingers g <;> simp_all
    · ring
    · ring

theorem refused_act (hq : 1 ≤ g.maxQueue) (ht : 0 < g.queueTimeout) (h : g.act s r a = some (s', r'))
    (hno : r.phase.refused g = false) :
    r'.phase.refused g = true ↔ a = .go ∧ r.phase = .turnedAway ∧ g.maxQueue ≤ s.queued := by
  rcases act_queue h with ⟨-, -, hsame, hoff⟩ | ⟨ha, hp, -, hp'⟩ | ⟨-, o, hp, hp'⟩
  · rw [hsame, hno]
    constructor
    · intro hfalse
      cases hfalse
    · rintro ⟨ha, hp, -⟩
      have := hoff ha hp
      omega
  · simp only [hp', Phase.refused, decide_eq_true_eq, ha, hp, true_and]
    omega
  · have hsame : r'.phase.refused g = r.phase.refused g := by
      rw [hp, hp']
      rfl
    rw [hsame, hno, hp]
    simp

/-- A request is refused exactly if those who wait and those who linger are together as many as
the queue may hold. So one that is refused when nobody lingers has the full number waiting before
it. -/
theorem refused_iff (g : Admission) (hq : 1 ≤ g.maxQueue) (ht : 0 < g.queueTimeout)
    (ms : List (Crowd.Move Unit Choice Empty)) (c c' : Crowd Slots Visit)
    (hr : exec (Crowd.step g.rules) init ms = some c) (m : Crowd.Move Unit Choice Empty)
    (hs : c.step g.rules m = some c') (i : ℕ) (r r' : Visit) (hi : c.parties[i]? = some r)
    (hi' : c'.parties[i]? = some r') (hno : r.phase.refused g = false) :
    (r'.phase.refused g = true ↔
        m = .act i .go ∧ r.phase = .turnedAway ∧ g.maxQueue ≤ waiting g c + lingering g c) ∧
      (lingering g c = 0 → r'.phase.refused g = true → g.maxQueue ≤ waiting g c) := by
  have hcount := counter_run hr
  have hiff : r'.phase.refused g = true ↔
      m = .act i .go ∧ r.phase = .turnedAway ∧ g.maxQueue ≤ waiting g c + lingering g c := by
    rcases Crowd.step_at hs hi hi' with ⟨a, s', rfl, hact⟩ | ⟨rfl, hother⟩
    · rw [refused_act hq ht hact hno, hcount]
      simp
    · rw [hno]
      simp [hother]
  refine ⟨hiff, fun hnone hrefused => ?_⟩
  obtain ⟨-, -, hfull⟩ := hiff.mp hrefused
  omega

/-- One slot and one place: the second request has waited and is served, and the third is about to
be counted. -/
def servedFromQueue : List (Crowd.Move Unit Choice Empty) :=
  [.enter (), .act 0 .go, .enter (), .act 1 .go, .act 1 .go, .act 1 .go, .act 0 .go, .act 0 .go,
    .act 1 .go,
    .enter (), .act 2 .go]

/-- The third request is told that the queue is full though nobody waits. -/
theorem queueFull_nobody_waits :
    ∃ c c', exec (Crowd.step (rules ⟨1, 1, 1⟩)) init servedFromQueue = some c ∧
      c.parties.map (·.phase) = [.done .served, .running .queued, .turnedAway] ∧
      exec (Crowd.step (rules ⟨1, 1, 1⟩)) c [.act 2 .go, .act 2 .go, .act 2 .go] = some c' ∧
      c'.parties.map (·.phase) = [.done .served, .running .queued, .done queueFull] :=
  ⟨_, _, rfl, rfl, rfl, rfl⟩

/-- One slot and one place in the queue: the second request waits, and the third is about to
be counted. -/
def secondWaits : List (Crowd.Move Unit Choice Empty) :=
  [.enter (), .act 0 .go, .enter (), .act 1 .go, .act 1 .go, .act 1 .go, .enter (), .act 2 .go]

theorem refused_iff_secondWaits :
    ∃ c c' r r', exec (Crowd.step (rules ⟨1, 1, 1⟩)) init secondWaits = some c ∧
      Crowd.step (rules ⟨1, 1, 1⟩) c (.act 2 .go) = some c' ∧
      c.parties[2]? = some r ∧ c'.parties[2]? = some r' ∧ lingering ⟨1, 1, 1⟩ c = 0 ∧
      r'.phase.refused ⟨1, 1, 1⟩ = true ∧ (1 : ℤ) ≤ waiting ⟨1, 1, 1⟩ c := by
  refine ⟨_, _, _, _, rfl, rfl, rfl, rfl, rfl, rfl, ?_⟩
  exact (refused_iff ⟨1, 1, 1⟩ (by decide) (by decide) secondWaits _ _ rfl
    (.act 2 .go) rfl 2 _ _ rfl rfl rfl).2
    rfl rfl

end ReverseProxyLb.Middleware.Admission
