import ReverseProxyLb.Lib.Prog
import ReverseProxyLb.Lib.Run

/-! A main thread, the threads it forked, and one unbounded channel. The scheduler picks a thread
and, where it asks the environment, the answer. -/
namespace ReverseProxyLb.Lib

variable {Op : Type} {Ans : Op → Type} {τ ν α β G G' : Type}

/-- How the scheduler lets a thread go on. -/
inductive Choice (Op : Type) (Ans : Op → Type) where
  | answer (o : Op) (a : Ans o)
  | go
  | timeout

def advance [DecidableEq Op] :
    Prog Op Ans τ ν β → List ν → Choice Op Ans → Option (Event Op Ans τ ν × Prog Op Ans τ ν β)
  | .op o k, _, .answer o' a => if h : o' = o then some (.env o (h ▸ a), k (h ▸ a)) else none
  | .fork t k, _, .go => some (.fork t, k)
  | .send v k, _, .go => some (.send v, k)
  | .recv k, v :: _, .go => some (.recv v, k v)
  | .select k, v :: _, .go => some (.recv v, k (some v))
  | .select k, _, .timeout => some (.timeout, k none)
  | _, _, _ => none

/-- The moves of a thread, without the channel. -/
inductive Moves : Prog Op Ans τ ν β → Event Op Ans τ ν → Prog Op Ans τ ν β → Prop
  | op (o : Op) (k : Ans o → Prog Op Ans τ ν β) (a : Ans o) : Moves (.op o k) (.env o a) (k a)
  | fork (t : τ) (k : Prog Op Ans τ ν β) : Moves (.fork t k) (.fork t) k
  | send (v : ν) (k : Prog Op Ans τ ν β) : Moves (.send v k) (.send v) k
  | recv (k : ν → Prog Op Ans τ ν β) (v : ν) : Moves (.recv k) (.recv v) (k v)
  | select (k : Option ν → Prog Op Ans τ ν β) (v : ν) : Moves (.select k) (.recv v) (k (some v))
  | timeout (k : Option ν → Prog Op Ans τ ν β) : Moves (.select k) .timeout (k none)

namespace Event

def queue : Event Op Ans τ ν → List ν → List ν
  | .send v, q => q ++ [v]
  | .recv _, q => q.tail
  | .env _ _, q | .fork _, q | .timeout, q => q

def Ready : Event Op Ans τ ν → List ν → Prop
  | .recv v, q => q.head? = some v
  | .env _ _, _ | .fork _, _ | .send _, _ | .timeout, _ => True

def forked : Event Op Ans τ ν → List τ
  | .fork t => [t]
  | .env _ _ | .send _ | .recv _ | .timeout => []

def isSend : Event Op Ans τ ν → Bool
  | .send _ => true
  | .env _ _ | .fork _ | .recv _ | .timeout => false

def isRecv : Event Op Ans τ ν → Bool
  | .recv _ => true
  | .env _ _ | .fork _ | .send _ | .timeout => false

def isFork : Event Op Ans τ ν → Bool
  | .fork _ => true
  | .env _ _ | .send _ | .recv _ | .timeout => false

end Event

theorem advance_moves [DecidableEq Op] {p p' : Prog Op Ans τ ν β} {q : List ν} {c : Choice Op Ans}
    {e : Event Op Ans τ ν} (h : advance p q c = some (e, p')) : Moves p e p' ∧ e.Ready q := by
  unfold advance at h
  split at h
  · split_ifs at h with ho
    subst ho
    cases h
    exact ⟨.op _ _ _, trivial⟩
  · cases h; exact ⟨.fork _ _, trivial⟩
  · cases h; exact ⟨.send _ _, trivial⟩
  · cases h; exact ⟨.recv _ _, rfl⟩
  · cases h; exact ⟨.select _ _, rfl⟩
  · cases h; exact ⟨.timeout _, trivial⟩
  · cases h

theorem Safe.moves {R : Event Op Ans τ ν → Prop} {D : Discipline Op Ans τ ν G}
    {Q : Outcome β → G → Prop} {p p' : Prog Op Ans τ ν β} {g : G} {e : Event Op Ans τ ν}
    (h : Safe R D Q p g) (hm : Moves p e p') (hR : R e) : Safe R D Q p' (D.upd g e) := by
  cases hm with
  | op o k a => exact h.2 a hR
  | fork t k => exact h.2
  | send v k => exact h.2
  | recv k v => exact h.2 v hR
  | select k v => exact h.2.2 v hR
  | timeout k => exact h.2.1

def Discipline.fold (D : Discipline Op Ans τ ν G) (g : G) (evs : List (Event Op Ans τ ν)) : G :=
  evs.foldl D.upd g

@[simp] theorem Discipline.fold_nil (D : Discipline Op Ans τ ν G) (g : G) : D.fold g [] = g := rfl

@[simp] theorem Discipline.fold_append (D : Discipline Op Ans τ ν G) (g : G)
    (evs evs' : List (Event Op Ans τ ν)) : D.fold g (evs ++ evs') = D.fold (D.fold g evs) evs' :=
  List.foldl_append

@[simp] theorem Discipline.fold_singleton (D : Discipline Op Ans τ ν G) (g : G)
    (e : Event Op Ans τ ν) : D.fold g [e] = D.upd g e := rfl

/-- A log entry: the thread, `none` for the main one, and what it did. -/
abbrev Entry (Op : Type) (Ans : Op → Type) (τ ν : Type) := Option ℕ × Event Op Ans τ ν

structure Pool (Op : Type) (Ans : Op → Type) (τ ν α : Type) where
  main : Prog Op Ans τ ν α
  spawned : List (τ × Prog Op Ans τ ν Unit) := []
  queue : List ν := []
  crashed : Bool := false
  log : List (Entry Op Ans τ ν) := []

inductive Label (Op : Type) (Ans : Op → Type) where
  | main (c : Choice Op Ans)
  | spawned (i : ℕ) (c : Choice Op Ans)
  | crash (i : ℕ)

namespace Pool

def record (body : τ → Prog Op Ans τ ν Unit) (s : Pool Op Ans τ ν α) (who : Option ℕ)
    (e : Event Op Ans τ ν) : Pool Op Ans τ ν α :=
  { s with
    spawned := s.spawned ++ e.forked.map fun t => (t, body t)
    queue := e.queue s.queue
    log := s.log ++ [(who, e)] }

def step [DecidableEq Op] (body : τ → Prog Op Ans τ ν Unit) (s : Pool Op Ans τ ν α) :
    Label Op Ans → Option (Pool Op Ans τ ν α)
  | .main c =>
    if s.crashed then none
    else (advance s.main s.queue c).map fun m => record body { s with main := m.2 } none m.1
  | .spawned i c =>
    if s.crashed then none
    else match s.spawned[i]? with
      | some (t, p) => (advance p s.queue c).map fun m =>
          record body { s with spawned := s.spawned.set i (t, m.2) } (some i) m.1
      | none => none
  | .crash i =>
    if s.crashed then none
    else match s.spawned[i]? with
      | some (_, .panic) => some { s with crashed := true }
      | _ => none

inductive Steps (body : τ → Prog Op Ans τ ν Unit) (s : Pool Op Ans τ ν α) :
    Pool Op Ans τ ν α → Prop
  | main {e : Event Op Ans τ ν} {p : Prog Op Ans τ ν α} (h : Moves s.main e p) (hr : e.Ready s.queue) :
      Steps body s (record body { s with main := p } none e)
  | spawned {i : ℕ} {t : τ} {e : Event Op Ans τ ν} {p p' : Prog Op Ans τ ν Unit}
      (hi : s.spawned[i]? = some (t, p)) (h : Moves p e p') (hr : e.Ready s.queue) :
      Steps body s (record body { s with spawned := s.spawned.set i (t, p') } (some i) e)
  | crash {i : ℕ} {t : τ} (hi : s.spawned[i]? = some (t, .panic)) :
      Steps body s { s with crashed := true }

variable [DecidableEq Op] {body : τ → Prog Op Ans τ ν Unit} {s s' : Pool Op Ans τ ν α}

theorem steps_of_step {l : Label Op Ans} (h : step body s l = some s') :
    s.crashed = false ∧ Steps body s s' := by
  cases l with
  | main c =>
    simp only [step] at h
    split_ifs at h with hc
    obtain ⟨⟨e, p⟩, hm, rfl⟩ := Option.map_eq_some_iff.mp h
    obtain ⟨hmv, hr⟩ := advance_moves hm
    exact ⟨by simpa using hc, .main hmv hr⟩
  | spawned i c =>
    simp only [step] at h
    split_ifs at h with hc
    split at h
    · next t p hi =>
      obtain ⟨⟨e, p'⟩, hm, rfl⟩ := Option.map_eq_some_iff.mp h
      obtain ⟨hmv, hr⟩ := advance_moves hm
      exact ⟨by simpa using hc, .spawned hi hmv hr⟩
    · cases h
  | crash i =>
    simp only [step] at h
    split_ifs at h with hc
    split at h
    · next t hi =>
      cases h
      exact ⟨by simpa using hc, .crash hi⟩
    · cases h

def localLog (who : Option ℕ) (log : List (Entry Op Ans τ ν)) : List (Event Op Ans τ ν) :=
  (log.filter fun x => x.1 == who).map Prod.snd

omit [DecidableEq Op] in
@[simp] theorem localLog_append (who : Option ℕ) (log log' : List (Entry Op Ans τ ν)) :
    localLog who (log ++ log') = localLog who log ++ localLog who log' := by
  simp [localLog]

omit [DecidableEq Op] in
@[simp] theorem localLog_self (who : Option ℕ) (e : Event Op Ans τ ν) :
    localLog who [(who, e)] = [e] := by
  simp [localLog]

omit [DecidableEq Op] in
theorem localLog_other {who who' : Option ℕ} (h : who' ≠ who) (e : Event Op Ans τ ν) :
    localLog who [(who', e)] = [] := by
  simp [localLog, h]

section Followed
variable {R : Event Op Ans τ ν → Prop} {D : Discipline Op Ans τ ν G} {D' : Discipline Op Ans τ ν G'}
  {P : Prog Op Ans τ ν α → G → Prop} {P' : τ → Prog Op Ans τ ν Unit → G' → Prop} {g₀ : G} {g' : τ → G'}

/-- A property of every thread, in the ghost state that its own events make up. -/
structure Followed (D : Discipline Op Ans τ ν G) (P : Prog Op Ans τ ν α → G → Prop) (g₀ : G)
    (D' : Discipline Op Ans τ ν G') (P' : τ → Prog Op Ans τ ν Unit → G' → Prop) (g' : τ → G')
    (s : Pool Op Ans τ ν α) : Prop where
  main : P s.main (D.fold g₀ (localLog none s.log))
  spawned : ∀ i t p, s.spawned[i]? = some (t, p) → P' t p (D'.fold (g' t) (localLog (some i) s.log))
  known : ∀ i, s.spawned.length ≤ i → localLog (some i) s.log = []

omit [DecidableEq Op] in
theorem followed_forked (hbody : ∀ t, P' t (body t) (g' t)) {n i : ℕ} {ts : List τ} {t : τ}
    {p : Prog Op Ans τ ν Unit} (h : (ts.map fun t => (t, body t))[i - n]? = some (t, p)) :
    P' t p (g' t) := by
  rw [List.getElem?_map] at h
  obtain ⟨t', -, he⟩ := Option.map_eq_some_iff.mp h
  cases he
  exact hbody t

omit [DecidableEq Op] in
theorem followed_main (hbody : ∀ t, P' t (body t) (g' t)) (hs : Followed D P g₀ D' P' g' s)
    {e : Event Op Ans τ ν} {p : Prog Op Ans τ ν α}
    (hp : P p (D.upd (D.fold g₀ (localLog none s.log)) e)) :
    Followed D P g₀ D' P' g' (record body { s with main := p } none e) := by
  have hlog : ∀ i, localLog (some i) (s.log ++ [(none, e)]) = localLog (some i) s.log := fun i => by
    rw [localLog_append, localLog_other (by simp), List.append_nil]
  refine ⟨?_, fun i t p' hi => ?_, fun i hi => ?_⟩
  · simp only [record, localLog_append, localLog_self, Discipline.fold_append,
      Discipline.fold_singleton]
    exact hp
  · simp only [record, hlog] at hi ⊢
    rw [List.getElem?_append] at hi
    split_ifs at hi with hlt
    · exact hs.spawned i t p' hi
    · rw [hs.known i (not_lt.mp hlt)]
      exact followed_forked hbody hi
  · simp only [record, hlog, List.length_append] at hi ⊢
    exact hs.known i (by omega)

omit [DecidableEq Op] in
theorem followed_spawned (hbody : ∀ t, P' t (body t) (g' t)) (hs : Followed D P g₀ D' P' g' s) {i : ℕ}
    {t : τ} {e : Event Op Ans τ ν} {p p' : Prog Op Ans τ ν Unit} (hi : s.spawned[i]? = some (t, p))
    (hp : P' t p' (D'.upd (D'.fold (g' t) (localLog (some i) s.log)) e)) :
    Followed D P g₀ D' P' g'
      (record body { s with spawned := s.spawned.set i (t, p') } (some i) e) := by
  have hlt : i < s.spawned.length := (List.getElem?_eq_some_iff.mp hi).1
  have hother : ∀ j ≠ i, localLog (some j) (s.log ++ [(some i, e)]) = localLog (some j) s.log := by
    intro j hj
    rw [localLog_append, localLog_other (by simpa using Ne.symm hj), List.append_nil]
  refine ⟨?_, fun j t' q hj => ?_, fun j hj => ?_⟩
  · have hnone : localLog none (s.log ++ [(some i, e)]) = localLog none s.log := by
      rw [localLog_append, localLog_other (by simp), List.append_nil]
    simp only [record, hnone]
    exact hs.main
  · simp only [record] at hj ⊢
    rw [List.getElem?_append, List.length_set] at hj
    split_ifs at hj with hjl
    · by_cases hji : j = i
      · subst hji
        rw [List.getElem?_set_self hlt] at hj
        cases hj
        simp only [localLog_append, localLog_self, Discipline.fold_append, Discipline.fold_singleton]
        exact hp
      · rw [List.getElem?_set_ne (Ne.symm hji)] at hj
        rw [hother j hji]
        exact hs.spawned j t' q hj
    · rw [hother j (by omega), hs.known j (not_lt.mp hjl)]
      exact followed_forked hbody hj
  · simp only [record, List.length_append, List.length_set] at hj ⊢
    rw [hother j (by omega)]
    exact hs.known j (by omega)

theorem followed_step (hmain : ∀ p e p' g, P p g → Moves p e p' → P p' (D.upd g e))
    (hspawned : ∀ t p e p' g, P' t p g → Moves p e p' → P' t p' (D'.upd g e))
    (hbody : ∀ t, P' t (body t) (g' t)) {l : Label Op Ans} (h : Followed D P g₀ D' P' g' s)
    (hs : step body s l = some s') : Followed D P g₀ D' P' g' s' := by
  obtain ⟨-, hst⟩ := steps_of_step hs
  cases hst with
  | main hm hr => exact followed_main hbody h (hmain _ _ _ _ h.main hm)
  | spawned hsp hm hr =>
    exact followed_spawned hbody h hsp (hspawned _ _ _ _ _ (h.spawned _ _ _ hsp) hm)
  | crash hsp => exact ⟨h.main, h.spawned, h.known⟩

end Followed

section Safety
variable {R : Event Op Ans τ ν → Prop} {D : Discipline Op Ans τ ν G} {Q : Outcome α → G → Prop}
  {D' : Discipline Op Ans τ ν G'} {Q' : τ → Outcome Unit → G' → Prop} {g₀ : G} {g' : τ → G'}

/-- Every thread is safe, in the ghost state that its own events make up. -/
structure ThreadsSafe (R : Event Op Ans τ ν → Prop) (D : Discipline Op Ans τ ν G)
    (Q : Outcome α → G → Prop) (g₀ : G) (D' : Discipline Op Ans τ ν G')
    (Q' : τ → Outcome Unit → G' → Prop) (g' : τ → G') (s : Pool Op Ans τ ν α) : Prop where
  main : Safe R D Q s.main (D.fold g₀ (localLog none s.log))
  spawned : ∀ i t p, s.spawned[i]? = some (t, p) →
    Safe R D' (Q' t) p (D'.fold (g' t) (localLog (some i) s.log))
  known : ∀ i, s.spawned.length ≤ i → localLog (some i) s.log = []

omit [DecidableEq Op] in
theorem threadsSafe_iff : ThreadsSafe R D Q g₀ D' Q' g' s ↔
    Followed D (Safe R D Q) g₀ D' (fun t => Safe R D' (Q' t)) g' s :=
  ⟨fun h => ⟨h.main, h.spawned, h.known⟩, fun h => ⟨h.main, h.spawned, h.known⟩⟩

omit [DecidableEq Op] in
theorem forall_mem_record_spawned {P : τ × Prog Op Ans τ ν Unit → Prop} {who : Option ℕ}
    {e : Event Op Ans τ ν} (h : ∀ x ∈ s.spawned, P x) (hforked : ∀ t ∈ e.forked, P (t, body t)) :
    ∀ x ∈ (record body s who e).spawned, P x := by
  intro x hx
  rcases List.mem_append.mp hx with hx | hx
  · exact h x hx
  · obtain ⟨t, ht, rfl⟩ := List.mem_map.mp hx
    exact hforked t ht

theorem forall_mem_set {β : Type*} {P : β → Prop} {l : List β} (h : ∀ x ∈ l, P x) {i : ℕ} {y : β}
    (hy : P y) :
    ∀ x ∈ l.set i y, P x := by
  intro x hx
  rcases List.mem_or_eq_of_mem_set hx with hx | rfl
  · exact h x hx
  · exact hy

omit [DecidableEq Op] in
theorem forall_mem_record {who : Option ℕ} {e : Event Op Ans τ ν} :
    (∀ x ∈ (record body s who e).log, R x.2) ↔ (∀ x ∈ s.log, R x.2) ∧ R e := by
  simp [record, or_imp, forall_and]

theorem threadsSafe_step (hbody : ∀ t, Safe R D' (Q' t) (body t) (g' t)) {l : Label Op Ans}
    (hi : (∀ x ∈ s.log, R x.2) → ThreadsSafe R D Q g₀ D' Q' g' s) (hs : step body s l = some s')
    (hR : ∀ x ∈ s'.log, R x.2) : ThreadsSafe R D Q g₀ D' Q' g' s' := by
  obtain ⟨-, hst⟩ := steps_of_step hs
  cases hst with
  | main hm hr =>
    obtain ⟨hlog, he⟩ := forall_mem_record.mp hR
    have h := threadsSafe_iff.mp (hi hlog)
    exact threadsSafe_iff.mpr (followed_main hbody h (h.main.moves hm he))
  | spawned hsp hm hr =>
    obtain ⟨hlog, he⟩ := forall_mem_record.mp hR
    have h := threadsSafe_iff.mp (hi hlog)
    exact threadsSafe_iff.mpr (followed_spawned hbody h hsp ((h.spawned _ _ _ hsp).moves hm he))
  | crash hsp => exact ⟨(hi hR).main, (hi hR).spawned, (hi hR).known⟩

/-- The rule for pools: if the main program is safe and so is every body, then in
every run whose events keep to `R` each thread is safe at every moment. -/
theorem threadsSafe_run (hbody : ∀ t, Safe R D' (Q' t) (body t) (g' t)) {p₀ : Prog Op Ans τ ν α}
    (hmain : Safe R D Q p₀ g₀) {ls : List (Label Op Ans)}
    (hrun : exec (step body) { main := p₀ } ls = some s) (hR : ∀ x ∈ s.log, R x.2) :
    ThreadsSafe R D Q g₀ D' Q' g' s :=
  exec_keeps (fun _ _ _ hi hs => threadsSafe_step hbody hi hs) hrun
    (fun _ => ⟨hmain, by simp, by simp [localLog]⟩) hR

end Safety

def total (f : Event Op Ans τ ν → Bool) (log : List (Entry Op Ans τ ν)) : ℕ :=
  log.countP fun x => f x.2

omit [DecidableEq Op] in
@[simp] theorem total_append (f : Event Op Ans τ ν → Bool) (log log' : List (Entry Op Ans τ ν)) :
    total f (log ++ log') = total f log + total f log' := List.countP_append ..

omit [DecidableEq Op] in
@[simp] theorem total_singleton (f : Event Op Ans τ ν → Bool) (x : Entry Op Ans τ ν) :
    total f [x] = if f x.2 then 1 else 0 := by simp [total, List.countP_singleton]

omit [DecidableEq Op] in
theorem total_eq_sum (f : Event Op Ans τ ν → Bool) (log : List (Entry Op Ans τ ν)) :
    total f log = (log.map fun x => if f x.2 then 1 else 0).sum := by
  induction log with
  | nil => rfl
  | cons x log ih =>
    rw [← List.singleton_append, total_append, total_singleton, List.map_append, List.sum_append, ← ih,
      List.map_singleton, List.sum_singleton]

omit [DecidableEq Op] in
theorem sum_localLog {M : Type} [AddCommMonoid M] (w : Event Op Ans τ ν → M) (n : ℕ)
    (log : List (Entry Op Ans τ ν)) (h : ∀ x ∈ log, ∀ i ∈ x.1, i < n) :
    (log.map fun x => w x.2).sum =
      ((localLog none log).map w).sum + ∑ i ∈ Finset.range n, ((localLog (some i) log).map w).sum := by
  induction log with
  | nil => simp [localLog]
  | cons x log ih =>
    obtain ⟨who, e⟩ := x
    have hcons : ∀ who', localLog who' ((who, e) :: log) =
        localLog who' [(who, e)] ++ localLog who' log :=
          fun who' => localLog_append who' [(who, e)] log
    rw [List.map_cons, List.sum_cons, ih fun x hx => h x (List.mem_cons_of_mem _ hx)]
    cases who with
    | none =>
      have hs : ∀ i, localLog (some i) ((none, e) :: log) = localLog (some i) log := fun i => by
        rw [hcons, localLog_other (by simp), List.nil_append]
      simp only [hs, hcons none, localLog_self, List.map_append, List.sum_append, List.map_cons,
        List.map_nil, List.sum_cons, List.sum_nil, add_zero, add_assoc]
    | some j =>
      have hj : j < n := h _ (List.mem_cons_self ..) j rfl
      have hn : localLog none ((some j, e) :: log) = localLog none log := by
        rw [hcons, localLog_other (by simp), List.nil_append]
      have hs : ∀ i, ((localLog (some i) ((some j, e) :: log)).map w).sum =
          (if i = j then w e else 0) + ((localLog (some i) log).map w).sum := by
        intro i
        by_cases hij : i = j
        · subst hij
          simp [hcons (some i)]
        · rw [hcons, localLog_other (by simpa using Ne.symm hij)]
          simp [hij]
      simp only [hn, hs, Finset.sum_add_distrib, Finset.sum_ite_eq', Finset.mem_range, hj, if_true]
      abel

theorem known_step {l : Label Op Ans} (hs : step body s l = some s')
    (hi : ∀ x ∈ s.log, ∀ i ∈ x.1, i < s.spawned.length) :
    ∀ x ∈ s'.log, ∀ i ∈ x.1, i < s'.spawned.length := by
  obtain ⟨-, hst⟩ := steps_of_step hs
  cases hst with
  | main hm hr =>
    intro x hx i hxi
    rcases List.mem_append.mp hx with hx | hx
    · exact (hi x hx i hxi).trans_le (by simp [record])
    · rw [List.mem_singleton.mp hx] at hxi
      cases hxi
  | @spawned j t e p p' hsp hm hr =>
    have hj : j < s.spawned.length := (List.getElem?_eq_some_iff.mp hsp).1
    intro x hx i hxi
    have hlen : i < s.spawned.length := by
      rcases List.mem_append.mp hx with hx | hx
      · exact hi x hx i hxi
      · rw [List.mem_singleton.mp hx] at hxi
        exact Option.some.inj hxi ▸ hj
    exact hlen.trans_le (by simp [record])
  | crash hsp => exact hi

theorem crashed_step {l : Label Op Ans} (hs : step body s l = some s') (hc : s'.crashed) :
    ∃ (i : ℕ) (t : τ), s'.spawned[i]? = some (t, .panic) := by
  obtain ⟨hrunning, hst⟩ := steps_of_step hs
  cases hst with
  | main | spawned => simp [record, hrunning] at hc
  | crash hsp => exact ⟨_, _, hsp⟩

/-- Messages are neither lost nor made up, and every thread was forked. -/
structure Accounted (s : Pool Op Ans τ ν α) : Prop where
  messages : total Event.isSend s.log = total Event.isRecv s.log + s.queue.length
  threads : total Event.isFork s.log = s.spawned.length

omit [DecidableEq Op] in
theorem accounted_record {who : Option ℕ} {e : Event Op Ans τ ν} (hi : s.Accounted)
    (hr : e.Ready s.queue) : (record body s who e).Accounted := by
  obtain ⟨hm, hf⟩ := hi
  cases e with
  | recv v =>
    obtain ⟨q, hq⟩ : ∃ q, s.queue = v :: q := by
      cases hqs : s.queue with
      | nil => simp [Event.Ready, hqs] at hr
      | cons a q => exact ⟨q, by simpa [Event.Ready, hqs] using hr⟩
    rw [hq] at hm
    refine ⟨?_, by simpa [record, Event.isFork, Event.forked] using hf⟩
    simp only [record, total_append, total_singleton, Event.isSend, Event.isRecv, Event.queue, hq, hm,
      List.tail_cons, List.length_cons, Bool.false_eq_true, if_false, if_true]
    omega
  | env | fork | send | timeout =>
    exact ⟨by simp [record, Event.isSend, Event.isRecv, Event.queue, hm, add_assoc],
      by simp [record, Event.isFork, Event.forked, hf]⟩

theorem accounted_step {l : Label Op Ans} (hs : step body s l = some s') (hi : s.Accounted) :
    s'.Accounted := by
  obtain ⟨-, hst⟩ := steps_of_step hs
  cases hst with
  | @main e p hm hr =>
    have hi' : Accounted { s with main := p } := ⟨hi.messages, hi.threads⟩
    exact accounted_record hi' hr
  | @spawned i t e p p' hsp hm hr =>
    have hi' : Accounted { s with spawned := s.spawned.set i (t, p') } :=
      ⟨hi.messages, by simpa using hi.threads⟩
    exact accounted_record hi' hr
  | crash hsp => exact ⟨hi.messages, hi.threads⟩

section Run
variable {p₀ : Prog Op Ans τ ν α} {ls : List (Label Op Ans)}

theorem known_run (hrun : exec (step body) { main := p₀ } ls = some s) :
    ∀ x ∈ s.log, ∀ i ∈ x.1, i < s.spawned.length :=
  exec_keeps (fun _ _ _ hi hs => known_step hs hi) hrun (by simp)

theorem crashed_run (hrun : exec (step body) { main := p₀ } ls = some s) :
    s.crashed → ∃ (i : ℕ) (t : τ), s.spawned[i]? = some (t, .panic) :=
  exec_keeps (fun _ _ _ _ hs => crashed_step hs) hrun (by simp)

theorem accounted_run (hrun : exec (step body) { main := p₀ } ls = some s) : s.Accounted :=
  exec_keeps (fun _ _ _ hi hs => accounted_step hs hi) hrun ⟨rfl, rfl⟩

end Run

end Pool
end ReverseProxyLb.Lib
