import ReverseProxyLb.Lib.Bins
import ReverseProxyLb.Circuit.StateMachine

/-! The buckets of a record hold only counts. They are read as bins of the recorded events:
the ring is the tally of the bins, and the totals are the tally of what is live. -/
namespace ReverseProxyLb.Circuit

/-- A call of `recordWindow`, with its clock reading. -/
structure Event where
  time : ℤ
  success : Bool
  deriving DecidableEq, Repr

section Ring

variable (c : CircuitBreaker)

def recordEvents (st : BackendState) (es : List Event) : BackendState :=
  es.foldl (fun st e => recordWindow c e.time st e.success) st

def bucketDur : ℤ :=
  if c.rollingWindow.tdiv rollingBuckets ≤ 0 then 1 else c.rollingWindow.tdiv rollingBuckets

/-- The cell of the time grid an instant falls in. The buckets stand for the cells in turn. -/
def slot (t : ℤ) : ℤ := (Time.unixNano t).tdiv (bucketDur c)

def bucketIndex (t : ℤ) : Fin rollingBuckets :=
  ⟨(slot c t % rollingBuckets).toNat, by
    have hpos := Int.emod_nonneg (slot c t) (b := rollingBuckets) (by decide)
    have hlt := Int.emod_lt_of_pos (slot c t) (b := rollingBuckets) (by decide)
    omega⟩

def expired (now start : ℤ) : Bool :=
  Time.isZero start || decide (c.rollingWindow ≤ Time.sub now start)

def binning : Lib.Binning (Fin rollingBuckets) ℤ Event where
  time := Event.time
  place e := bucketIndex c e.time
  stale := expired c
  blank := 0
  stale_blank _ := rfl

/-- The events that the totals at `now` count. -/
def counted (now : ℤ) (es : List Event) : Multiset Event := (binning c).live now ((binning c).fill es)

end Ring

def Bucket.ofBin (b : Lib.Bin ℤ Event) : Bucket where
  start := b.start
  successes := b.entries.countP fun e => e.success = true
  failures := b.entries.countP fun e => e.success = false

def tally (es : Multiset Event) : ℤ × ℤ := (es.card, es.countP fun e => e.success = false)

def windowRing (st : BackendState) : List Bucket :=
  if st.buckets.isEmpty then List.replicate rollingBuckets {} else st.buckets

def Tallies (c : CircuitBreaker) (st : BackendState) (es : List Event) : Prop :=
  windowRing st = List.ofFn fun i => Bucket.ofBin ((binning c).fill es i)

variable {c : CircuitBreaker} {st : BackendState} {es : List Event}

theorem bucketDur_pos (c : CircuitBreaker) : 0 < bucketDur c := by
  unfold bucketDur
  split <;> omega

theorem bucketIndex_eq (c : CircuitBreaker) (t : ℤ) :
    (if (slot c t).tmod rollingBuckets < 0 then (slot c t).tmod rollingBuckets + rollingBuckets
      else (slot c t).tmod rollingBuckets).toNat = bucketIndex c t := by
  have hten : (rollingBuckets : ℤ) = 10 := rfl
  have hmod := Int.tmod_eq_emod (a := slot c t) (b := rollingBuckets)
  change _ = (slot c t % rollingBuckets).toNat
  generalize (slot c t).tmod rollingBuckets = m at hmod ⊢
  rw [hten] at hmod ⊢
  split_ifs at hmod ⊢ <;> omega

theorem Tallies.of_buckets {st' : BackendState} (h : Tallies c st es) (hb : st'.buckets = st.buckets) :
    Tallies c st' es := by
  unfold Tallies windowRing at h ⊢
  rw [hb]
  exact h

theorem tallies_nil (c : CircuitBreaker) (h : st.buckets = []) : Tallies c st [] := by
  unfold Tallies windowRing
  rw [h]
  rfl

theorem ofFn_set {α : Type*} {n : ℕ} (f : Fin n → α) (i : Fin n) (x : α) :
    (List.ofFn f).set i x = List.ofFn (Function.update f i x) := by
  apply List.ext_getElem
  · simp
  · intro j hj hj'
    simp [List.getElem_set, Function.update_apply, Fin.ext_iff, eq_comm]

def Bucket.add (c : CircuitBreaker) (b : Bucket) (t : ℤ) (ok : Bool) : Bucket :=
  let b := if expired c t b.start then { start := t, successes := 0, failures := 0 } else b
  if ok then { b with successes := b.successes + 1 } else { b with failures := b.failures + 1 }

theorem recordWindow_buckets (c : CircuitBreaker) (t : ℤ) (st : BackendState) (ok : Bool) :
    (recordWindow c t st ok).buckets = (windowRing st).set (bucketIndex c t)
      (((windowRing st).getD (bucketIndex c t) {}).add c t ok) := by
  have hif : ∀ b : Bucket, (if c.rollingWindow ≤ Time.sub t b.start ∨ Time.isZero b.start
      then { start := t, successes := 0, failures := 0 } else b) =
      if expired c t b.start then { start := t, successes := 0, failures := 0 } else b := by
    intro b
    simp only [expired, Bool.or_eq_true, decide_eq_true_eq, or_comm]
  rw [← bucketIndex_eq]
  simp only [recordWindow, hif]
  rfl

theorem ofBin_putIn (c : CircuitBreaker) (b : Lib.Bin ℤ Event) (t : ℤ) (ok : Bool) :
    Bucket.ofBin ((binning c).putIn b ⟨t, ok⟩) = (Bucket.ofBin b).add c t ok := by
  have hstart : (Bucket.ofBin b).start = b.start := rfl
  simp only [Lib.Binning.putIn, Bucket.add, hstart]
  change Bucket.ofBin (if expired c t b.start then _ else _) = _
  cases expired c t b.start <;> cases ok <;>
    simp [Bucket.ofBin, binning, ← Multiset.cons_zero]

theorem Tallies.record (h : Tallies c st es) (t : ℤ) (ok : Bool) :
    Tallies c (recordWindow c t st ok) (es ++ [⟨t, ok⟩]) := by
  have hbuckets := recordWindow_buckets c t st ok
  rw [h, ofFn_set] at hbuckets
  have hne : (recordWindow c t st ok).buckets.isEmpty = false := by
    rw [hbuckets]
    rfl
  unfold Tallies windowRing
  rw [hne, hbuckets]
  change List.ofFn _ = List.ofFn _
  congr 1
  funext i
  by_cases hi : i = bucketIndex c t
  · subst hi
    rw [Function.update_self, List.getD_eq_getElem?_getD]
    have hself := (binning c).fill_concat_self es ⟨t, ok⟩
    change (binning c).fill _ (bucketIndex c t) = _ at hself
    rw [hself, ofBin_putIn]
    simp [binning]
  · rw [Function.update_of_ne hi, (binning c).fill_concat_of_ne es ⟨t, ok⟩ hi]

theorem tallies_recordEvents (h : st.buckets = []) (es : List Event) :
    Tallies c (recordEvents c st es) es := by
  induction es using List.reverseRecOn with
  | nil => exact tallies_nil c h
  | append_singleton es e ih =>
    rw [recordEvents, List.foldl_append]
    exact ih.record e.time e.success

theorem tally_sum {ι : Type*} (I : Finset ι) (f : ι → Multiset Event) :
    tally (∑ i ∈ I, f i) = ∑ i ∈ I, tally (f i) := by
  classical
  induction I using Finset.induction_on with
  | empty => rfl
  | insert i I hi ih =>
    rw [Finset.sum_insert hi, Finset.sum_insert hi, ← ih]
    simp [tally]

theorem windowTotals_eq_sum (c : CircuitBreaker) (now : ℤ) (st : BackendState) :
    windowTotals c now st = (st.buckets.map fun b =>
      if expired c now b.start then 0 else (b.successes + b.failures, b.failures)).sum := by
  have hfold : ∀ (l : List Bucket) (acc : ℤ × ℤ), l.foldl (fun acc b =>
      if Time.isZero b.start then acc
      else if c.rollingWindow ≤ Time.sub now b.start then acc
      else (acc.1 + (b.successes + b.failures), acc.2 + b.failures)) acc = acc + (l.map fun b =>
        if expired c now b.start then 0 else (b.successes + b.failures, b.failures)).sum := by
    intro l
    induction l with
    | nil => simp
    | cons b l ih =>
      intro acc
      have hexp : expired c now b.start =
          (Time.isZero b.start || decide (c.rollingWindow ≤ Time.sub now b.start)) := rfl
      rw [List.foldl_cons, ih, List.map_cons, List.sum_cons]
      by_cases hz : Time.isZero b.start <;> by_cases ht : c.rollingWindow ≤ Time.sub now b.start <;>
        simp [hexp, hz, ht, Prod.ext_iff, add_assoc]
  rw [windowTotals, hfold]
  exact zero_add _

theorem tally_bin (b : Lib.Bin ℤ Event) :
    tally b.entries =
      ((Bucket.ofBin b).successes + (Bucket.ofBin b).failures, (Bucket.ofBin b).failures) := by
  have hcard := Multiset.card_eq_countP_add_countP (fun e : Event => e.success = true) b.entries
  simp only [Bool.not_eq_true] at hcard
  simp only [tally, Bucket.ofBin, hcard, Nat.cast_add]

theorem Tallies.totals (h : Tallies c st es) (now : ℤ) :
    windowTotals c now st = tally (counted c now es) := by
  have hring : windowTotals c now st = ((windowRing st).map fun b =>
      if expired c now b.start then 0 else (b.successes + b.failures, b.failures)).sum := by
    rw [windowTotals_eq_sum]
    unfold windowRing
    split
    · next hnil =>
      rw [List.isEmpty_iff.mp hnil]
      rfl
    · rfl
  rw [hring, h, List.map_ofFn, List.sum_ofFn, counted, Lib.Binning.live, tally_sum]
  apply Finset.sum_congr rfl
  intro i _
  change (if expired c now ((binning c).fill es i).start then _ else _) =
    tally (if expired c now ((binning c).fill es i).start then _ else _)
  split
  · rfl
  · rw [tally_bin]

theorem expired_eq_false (hW : c.rollingWindow ≤ Time.maxDuration) {now start : ℤ} :
    expired c now start = false ↔ start ≠ 0 ∧ now - start < c.rollingWindow := by
  have hpos := c.rollingWindow_pos
  unfold expired Time.isZero Time.sub Time.minDuration
  simp only [Bool.or_eq_false_iff, beq_eq_false_iff_ne, decide_eq_false_iff_not]
  apply and_congr_right
  intro _
  omega

theorem exists_counted (hW : c.rollingWindow ≤ Time.maxDuration)
    (hes : es.Pairwise fun e f => e.time ≤ f.time) (now : ℤ) :
    ∃ l : List Event, l.Sublist es ∧ (∀ e ∈ l, now - e.time < c.rollingWindow) ∧
      tally (counted c now es) = ((l.length : ℤ), (l.countP fun e => !e.success : ℤ)) := by
  obtain ⟨l, hperm, hsub⟩ : (counted c now es).toList.Subperm es := by
    rw [← Multiset.coe_le, Multiset.coe_toList]
    exact (binning c).live_le now es
  have hcoe : (l : Multiset Event) = counted c now es := by
    rw [← Multiset.coe_toList (counted c now es)]
    exact Multiset.coe_eq_coe.mpr hperm
  refine ⟨l, hsub, ?_, ?_⟩
  · intro e he
    have hmem : e ∈ counted c now es := by
      rw [← hcoe]
      exact he
    obtain ⟨hfresh, hin⟩ := (binning c).mem_live_fill.mp hmem
    have hage := ((expired_eq_false hW).mp hfresh).2
    have hstart : ((binning c).fill es _).start ≤ e.time := (binning c).start_le hes hin
    linarith
  · rw [← hcoe]
    simp [tally]

@[simp] theorem transition_buckets (st : BackendState) (dest : State) (notify : State × State) :
    (transition st dest notify).1.buckets = st.buckets := by
  unfold transition
  split <;> rfl

theorem allow_buckets (now : Clock) (st : BackendState) :
    (allow c now st).record.buckets = st.buckets := by
  unfold allow
  split
  · split <;> simp
  · split <;> simp
  · rfl

theorem forceOpen_buckets (now : Clock) (st : BackendState) :
    (forceOpen now st).record.buckets = st.buckets := by
  unfold forceOpen
  split <;> simp

theorem recordFailure_buckets (now : Clock) (st : BackendState) :
    (recordFailure c now st).record.buckets =
      if c.mode = .modeRolling ∧ st.state ≠ .stateHalfOpen then
        (recordWindow c (now 1) { st with failures := st.failures + 1, lastFailure := now 0 }
          false).buckets
      else st.buckets := by
  unfold recordFailure
  by_cases hs : st.state = .stateHalfOpen
  · simp [hs]
  · by_cases hm : c.mode = .modeRolling
    · simp only [hs, hm, if_false, if_true, ne_eq, not_false_eq_true, and_self]
      split <;> simp
    · simp only [hs, hm, if_false, false_and]
      split <;> simp

def Call.readings : Call → List ℤ
  | .allow now => [now 0]
  | .recordSuccess now => [now 0]
  | .recordFailure now => [now 0, now 1, now 2]
  | .forceOpen now => [now 0]
  | .reset => []

/-- A backend together with the events recorded since its window was last reset. -/
structure Tracked where
  cell : Cell
  log : List Event := []

namespace Tracked

def events (c : CircuitBreaker) (cell : Cell) : Call → List Event
  | .recordSuccess now =>
    if c.mode = .modeRolling ∧ cell.getState = .stateClosed then [⟨now 0, true⟩] else []
  | .recordFailure now =>
    if c.mode = .modeRolling ∧ cell.getState ≠ .stateHalfOpen then [⟨now 1, false⟩] else []
  | _ => []

def clears (c : CircuitBreaker) (cell : Cell) : Call → Bool
  | .reset => true
  | .recordSuccess now =>
    cell.getState == .stateHalfOpen && (cell.step c (.recordSuccess now)).getState == .stateClosed
  | _ => false

def step (c : CircuitBreaker) (t : Tracked) (k : Call) : Tracked where
  cell := t.cell.step c k
  log := if clears c t.cell k then [] else t.log ++ events c t.cell k

def run (c : CircuitBreaker) (t : Tracked) (calls : List Call) : Tracked := calls.foldl (step c) t

theorem run_concat (t : Tracked) (calls : List Call) (k : Call) :
    run c t (calls ++ [k]) = step c (run c t calls) k := by
  rw [run, List.foldl_append]
  rfl

theorem run_cell (t : Tracked) (calls : List Call) :
    (run c t calls).cell = Cell.run c t.cell calls := by
  induction calls using List.reverseRecOn with
  | nil => rfl
  | append_singleton calls k ih =>
    rw [run_concat, Cell.run_snoc, ← ih]
    rfl

theorem events_readings (cell : Cell) (k : Call) :
    ((events c cell k).map Event.time).Sublist k.readings := by
  cases k with
  | recordSuccess now =>
    simp only [events, Call.readings]
    split <;> simp
  | recordFailure now =>
    simp only [events, Call.readings]
    split <;> simp
  | allow | forceOpen | reset => simp [events]

theorem log_readings (cell : Cell) (calls : List Call) :
    ((run c ⟨cell, []⟩ calls).log.map Event.time).Sublist (calls.flatMap Call.readings) := by
  induction calls using List.reverseRecOn with
  | nil => exact List.Sublist.slnil
  | append_singleton calls k ih =>
    rw [run_concat, List.flatMap_append]
    simp only [step]
    split
    · exact List.nil_sublist _
    · rw [List.map_append]
      simpa using ih.append (events_readings _ k)

theorem tallies_recordSuccess {t : Tracked} (h : Tallies c t.cell.stateFor t.log) (now : Clock) :
    Tallies c (t.step c (.recordSuccess now)).cell.stateFor (t.step c (.recordSuccess now)).log := by
  cases hs : t.cell.getState with
  | stateOpen =>
    have hrec := (recordSuccess_of_open hs : recordSuccess c now _ = _)
    simp only [step, clears, events, hs, Cell.step_recordSuccess, hrec]
    simpa using h
  | stateClosed =>
    simp only [step, clears, events, hs, Cell.step_recordSuccess, Cell.stateFor_apply]
    have hst : t.cell.stateFor.state = .stateClosed := hs
    by_cases hm : c.mode = .modeRolling
    · simp [recordSuccess, hst, hm]
      exact (h.of_buckets rfl).record (now 0) true
    · simp [recordSuccess, hst, hm]
      exact h.of_buckets rfl
  | stateHalfOpen =>
    have hrec := (recordSuccess_of_halfOpen hs : recordSuccess c now _ = _)
    simp only [step, clears, events, hs, Cell.step_recordSuccess, hrec]
    by_cases hclose : c.successThreshold ≤ t.cell.stateFor.successes + 1
    · simp only [hclose, if_true]
      exact tallies_nil c rfl
    · have hstay : t.cell.stateFor.state = .stateHalfOpen := hs
      simp only [hclose, if_false, Cell.getState_apply, hstay]
      simp only [Bool.and_eq_true, beq_iff_eq, reduceCtorEq, and_false, if_false, List.append_nil]
      exact h.of_buckets rfl

theorem tallies_recordFailure {t : Tracked} (h : Tallies c t.cell.stateFor t.log) (now : Clock) :
    Tallies c (t.step c (.recordFailure now)).cell.stateFor (t.step c (.recordFailure now)).log := by
  have hbuckets := recordFailure_buckets (c := c) now t.cell.stateFor
  simp only [step, clears, events, Cell.step_recordFailure, Cell.stateFor_apply, Bool.false_eq_true,
    if_false]
  by_cases hrec : c.mode = .modeRolling ∧ t.cell.getState ≠ .stateHalfOpen
  · rw [if_pos hrec]
    rw [if_pos (by exact hrec)] at hbuckets
    apply Tallies.of_buckets _ hbuckets
    exact (h.of_buckets rfl).record (now 1) false
  · rw [if_neg hrec, List.append_nil]
    rw [if_neg (by exact hrec)] at hbuckets
    exact h.of_buckets hbuckets

theorem tallies_step {t : Tracked} (h : Tallies c t.cell.stateFor t.log) (k : Call) :
    Tallies c (t.step c k).cell.stateFor (t.step c k).log := by
  cases k with
  | allow now =>
    simp only [step, clears, events, List.append_nil]
    exact h.of_buckets (allow_buckets now _)
  | recordSuccess now => exact tallies_recordSuccess h now
  | recordFailure now => exact tallies_recordFailure h now
  | forceOpen now =>
    simp only [step, clears, events, List.append_nil]
    exact h.of_buckets (forceOpen_buckets now _)
  | reset => exact tallies_nil c rfl

theorem tallies_run (healthy : Bool) (calls : List Call) :
    Tallies c (run c ⟨{ healthy := healthy }, []⟩ calls).cell.stateFor
      (run c ⟨{ healthy := healthy }, []⟩ calls).log := by
  induction calls using List.reverseRecOn with
  | nil => exact tallies_nil c rfl
  | append_singleton calls k ih =>
    rw [run_concat]
    exact tallies_step ih k

end Tracked

theorem windowTotals_congr {st' : BackendState} (h : st'.buckets = st.buckets) (now : ℤ) :
    windowTotals c now st' = windowTotals c now st := by
  rw [windowTotals, h]
  rfl

theorem rollingShouldTrip_min {now : ℤ} (h : rollingShouldTrip c now st) :
    c.minRequests ≤ (windowTotals c now st).1 := by
  unfold rollingShouldTrip at h
  by_contra hlt
  simp [not_le.mp hlt] at h

theorem minRequests_le_of_trip (now : Clock) (hm : c.mode = .modeRolling)
    (hs : st.state = .stateClosed) (ho : (recordFailure c now st).record.state = .stateOpen) :
    c.minRequests ≤ (windowTotals c (now 2) (recordFailure c now st).record).1 := by
  have hbuckets := recordFailure_buckets (c := c) now st
  rw [if_pos ⟨hm, by simp [hs]⟩] at hbuckets
  rw [windowTotals_congr hbuckets]
  apply rollingShouldTrip_min
  by_contra htrip
  rw [hs] at htrip
  simp [recordFailure, hs, hm, htrip] at ho

/-- The totals count some of the recorded events, all younger than the window, and the breaker
does not trip on fewer such events than its minimum. -/
theorem windowTotals_sound (c : CircuitBreaker) (hW : c.rollingWindow ≤ Time.maxDuration) :
    (∀ (st : BackendState) (es : List Event) (now : ℤ), st.buckets = [] →
      (es.Pairwise fun e f => e.time ≤ f.time) →
        ∃ l : List Event, l.Sublist es ∧ (∀ e ∈ l, now - e.time < c.rollingWindow) ∧
          windowTotals c now (recordEvents c st es) =
            ((l.length : ℤ), (l.countP fun e => !e.success : ℤ))) ∧
    ∀ (healthy : Bool) (calls : List Call) (now : Clock), c.mode = .modeRolling →
      ((calls ++ [Call.recordFailure now]).flatMap Call.readings).Pairwise (· ≤ ·) →
      (Cell.run c { healthy := healthy } calls).getState = .stateClosed →
      (Cell.run c { healthy := healthy } (calls ++ [.recordFailure now])).getState = .stateOpen →
        c.minRequests ≤
          ((Tracked.run c ⟨{ healthy := healthy }, []⟩ (calls ++ [.recordFailure now])).log.countP
          fun e => now 2 - e.time < c.rollingWindow) := by
  constructor
  · intro st es now hst hes
    rw [(tallies_recordEvents hst es).totals]
    exact exists_counted hW hes now
  · intro healthy calls now hm hclock hclosed hopen
    have htally := Tracked.tallies_run (c := c) healthy (calls ++ [.recordFailure now])
    have hsorted := hclock.sublist (Tracked.log_readings (c := c) { healthy := healthy } _)
    rw [List.pairwise_map] at hsorted
    obtain ⟨l, hsub, hage, htotals⟩ := exists_counted hW hsorted (now 2)
    rw [← htally.totals, Tracked.run_cell, Cell.run_snoc] at htotals
    rw [Cell.run_snoc] at hopen
    have hmin := minRequests_le_of_trip now hm hclosed hopen
    change c.minRequests ≤
      (windowTotals c (now 2) (Cell.step c _ (.recordFailure now)).stateFor).1 at hmin
    rw [htotals] at hmin
    have hcount : l.countP (fun e => now 2 - e.time < c.rollingWindow) = l.length :=
      List.countP_eq_length.mpr fun e he => decide_eq_true (hage e he)
    have hle := hsub.countP_le (p := fun e => decide (now 2 - e.time < c.rollingWindow))
    rw [hcount] at hle
    exact hmin.trans (Int.ofNat_le.mpr hle)

/-- A breaker with a window of ten buckets of ten nanoseconds. -/
def briefConfig : Config where
  mode := .modeRolling
  failureThreshold := 1
  successThreshold := 1
  timeout := 0
  rollingWindow := 100
  errorRateThreshold := 1 / 2
  minRequests := 2

/-- Two failures within the window trip the breaker. -/
theorem windowTotals_sound_brief :
    let c := newCircuitBreakerWithConfig briefConfig
    let es : List Event := [⟨Time.unixEpoch + 9, true⟩, ⟨Time.unixEpoch + 50, false⟩]
    let calls : List Call := [.recordFailure fun _ => Time.unixEpoch + 5]
    let last : Clock := fun _ => Time.unixEpoch + 6
    (∃ l : List Event, l.Sublist es ∧ (∀ e ∈ l, Time.unixEpoch + 120 - e.time < c.rollingWindow) ∧
      windowTotals c (Time.unixEpoch + 120) (recordEvents c {} es) =
        ((l.length : ℤ), (l.countP fun e => !e.success : ℤ))) ∧
      c.minRequests ≤
        ((Tracked.run c ⟨{ healthy := true }, []⟩ (calls ++ [.recordFailure last])).log.countP
        fun e => last 2 - e.time < c.rollingWindow) := by
  intro c es calls last
  have h := windowTotals_sound c (by decide)
  constructor
  · exact h.1 {} es (Time.unixEpoch + 120) rfl (by decide)
  · exact h.2 true calls last rfl (by decide) (by decide +kernel) (by decide +kernel)

def Opens (c : CircuitBreaker) (es : List Event) (o : Event) : Prop :=
  es.find? (fun e => slot c e.time = slot c o.time) = some o

instance (c : CircuitBreaker) (es : List Event) (o : Event) : Decidable (Opens c es o) :=
  inferInstanceAs (Decidable (_ = _))

/-- The first event of a slot comes at least a window after the first event of every earlier slot
of its bucket. The zero time means an unused bucket, and the slot at the epoch is twice as wide as
the others. -/
structure Aligned (c : CircuitBreaker) (es : List Event) : Prop where
  rotated : ∀ o ∈ es, ∀ o' ∈ es, Opens c es o → Opens c es o' →
    bucketIndex c o'.time = bucketIndex c o.time →
    slot c o'.time < slot c o.time → c.rollingWindow ≤ o.time - o'.time
  nonzero : ∀ o ∈ es, Opens c es o → o.time ≠ 0
  narrow : ∀ o ∈ es, Opens c es o → ∀ e ∈ es, slot c e.time = slot c o.time →
    e.time - o.time ≤ bucketDur c

section Slots

variable (c : CircuitBreaker) {t t' : ℤ}

theorem slot_eq (ht : Time.Representable t) : slot c t = (Time.sinceEpoch t).tdiv (bucketDur c) := by
  rw [slot, ht.unixNano]

theorem slot_mono (ht : Time.Representable t) (ht' : Time.Representable t') (h : t ≤ t') :
    slot c t ≤ slot c t' := by
  rw [slot_eq c ht, slot_eq c ht']
  exact Int.tdiv_le_tdiv (bucketDur_pos c) (sub_le_sub_right h _)

theorem slot_spec (ht : Time.Representable t) :
    ∃ r, Time.sinceEpoch t = bucketDur c * slot c t + r ∧ |r| < bucketDur c ∧
      (0 ≤ Time.sinceEpoch t → 0 ≤ r) ∧ (Time.sinceEpoch t ≤ 0 → r ≤ 0) := by
  have hd := bucketDur_pos c
  rw [slot_eq c ht]
  refine ⟨(Time.sinceEpoch t).tmod (bucketDur c), ?_, ?_, ?_, ?_⟩
  · rw [add_comm]
    exact (Int.tmod_add_mul_tdiv _ _).symm
  · exact abs_lt.mpr ⟨Int.lt_tmod_of_pos _ hd, Int.tmod_lt_of_pos _ hd⟩
  · intro h
    exact Int.tmod_nonneg _ h
  · intro h
    have hneg := Int.tmod_nonneg (bucketDur c) (neg_nonneg.mpr h)
    rw [Int.neg_tmod] at hneg
    linarith

theorem sub_lt_of_slot_eq (ht : Time.Representable t) (ht' : Time.Representable t')
    (h : slot c t = slot c t') : t' - t < 2 * bucketDur c := by
  obtain ⟨r, ht, hr, -⟩ := slot_spec c ht
  obtain ⟨r', ht', hr', -⟩ := slot_spec c ht'
  rw [h] at ht
  unfold Time.sinceEpoch at ht ht'
  linarith [(abs_lt.mp hr).1, (abs_lt.mp hr').2]

theorem slot_le_add_one (ht : Time.Representable t) (ht' : Time.Representable t') (hle : t ≤ t')
    (h : t' - t ≤ bucketDur c) : slot c t' ≤ slot c t + 1 := by
  obtain ⟨r, ht, hr, -, hsign'⟩ := slot_spec c ht
  obtain ⟨r', ht', hr', hsign₁, -⟩ := slot_spec c ht'
  have hd := bucketDur_pos c
  have hrest : r - r' < bucketDur c := by
    have hnano : Time.sinceEpoch t ≤ Time.sinceEpoch t' := sub_le_sub_right hle _
    obtain hx | hx := le_total 0 (Time.sinceEpoch t')
    · linarith [hsign₁ hx, (abs_lt.mp hr).2]
    · linarith [hsign' (hnano.trans hx), (abs_lt.mp hr').1]
  unfold Time.sinceEpoch at ht ht'
  by_contra hlt
  have hmul : bucketDur c * 2 ≤ bucketDur c * (slot c t' - slot c t) :=
    mul_le_mul_of_nonneg_left (by omega) hd.le
  linarith [mul_sub (bucketDur c) (slot c t') (slot c t)]

theorem slot_eq_of_near (ht : Time.Representable t) (ht' : Time.Representable t') (hle : t ≤ t')
    (hnear : t' - t ≤ bucketDur c) (hindex : bucketIndex c t = bucketIndex c t') :
    slot c t = slot c t' := by
  have hmono := slot_mono c ht ht' hle
  have hnext := slot_le_add_one c ht ht' hle hnear
  have hmod : (slot c t % rollingBuckets).toNat = (slot c t' % rollingBuckets).toNat :=
    Fin.ext_iff.mp hindex
  have hten : (rollingBuckets : ℤ) = 10 := rfl
  rw [hten] at hmod
  omega

end Slots

theorem opens_iff {o : Event} :
    Opens c es o ↔ ∃ p q, es = p ++ [o] ++ q ∧ ∀ f ∈ p, slot c f.time ≠ slot c o.time := by
  rw [Opens, List.find?_eq_some_iff_append]
  simp

theorem exists_opens (c : CircuitBreaker) {e : Event} (he : e ∈ es) :
    ∃ o, Opens c es o ∧ slot c o.time = slot c e.time := by
  have hsome : (es.find? fun f => slot c f.time = slot c e.time).isSome :=
    List.find?_isSome.mpr ⟨e, he, decide_eq_true rfl⟩
  obtain ⟨o, ho⟩ := Option.isSome_iff_exists.mp hsome
  have hslot : slot c o.time = slot c e.time := by
    simpa using List.find?_some ho
  refine ⟨o, ?_, hslot⟩
  rw [Opens, hslot]
  exact ho

theorem Opens.mem {o : Event} (h : Opens c es o) : o ∈ es := List.mem_of_find?_eq_some h

theorem Opens.of_prefix {p : List Event} {o : Event} (h : Opens c p o) (hp : p <+: es) :
    Opens c es o := by
  obtain ⟨q, rfl⟩ := hp
  rw [Opens, List.find?_append, h]
  rfl

section Forgetting

theorem rollingWindow_eq (hten : 10 ∣ c.rollingWindow) : c.rollingWindow = 10 * bucketDur c := by
  have hpos := c.rollingWindow_pos
  have hdiv : c.rollingWindow.tdiv rollingBuckets = c.rollingWindow / 10 :=
    Int.tdiv_eq_ediv_of_nonneg hpos.le
  unfold bucketDur
  rw [hdiv]
  split <;> omega

theorem expired_mono (hW : c.rollingWindow ≤ Time.maxDuration) (t t' s : ℤ) (hle : t ≤ t')
    (h : expired c t s = true) : expired c t' s = true := by
  by_contra hfresh
  have hnew := (expired_eq_false hW).mp (Bool.not_eq_true _ ▸ hfresh)
  have hold : expired c t s = false := (expired_eq_false hW).mpr ⟨hnew.1, by linarith⟩
  rw [h] at hold
  cases hold

theorem fresh_while_recent (hW : c.rollingWindow ≤ Time.maxDuration) (hten : 10 ∣ c.rollingWindow)
    {t s : ℤ} :
    (∀ now, t ≤ now → now - t < c.rollingWindow - c.rollingWindow / 10 → expired c now s = false) ↔
      s ≠ 0 ∧ t - s ≤ bucketDur c := by
  have hW' := rollingWindow_eq hten
  have hd := bucketDur_pos c
  constructor
  · intro h
    have hlast := (expired_eq_false hW).mp (h (t + 9 * bucketDur c - 1) (by omega) (by omega))
    exact ⟨hlast.1, by omega⟩
  · rintro ⟨hs, hnear⟩ now _ hrecent
    exact (expired_eq_false hW).mpr ⟨hs, by omega⟩

theorem Opens.unique {o o' : Event} (h : Opens c es o) (h' : Opens c es o')
    (hslot : slot c o.time = slot c o'.time) : o = o' := by
  rw [Opens, hslot] at h
  exact Option.some.inj (h.symm.trans h')

theorem Opens.concat_cases {p : List Event} {e o : Event} (h : Opens c (p ++ [e]) o)
    (hslot : slot c o.time = slot c e.time) :
    (o = e ∧ ∀ f ∈ p, slot c f.time ≠ slot c e.time) ∨
      ∃ p₁ p₂, p = p₁ ++ [o] ++ p₂ ∧ ∀ f ∈ p₁, slot c f.time ≠ slot c o.time := by
  obtain ⟨p₁, q, hsplit, hfirst⟩ := opens_iff.mp h
  induction q using List.reverseRecOn with
  | nil =>
    rw [List.append_nil] at hsplit
    obtain ⟨rfl, hlast⟩ := List.append_inj' hsplit rfl
    obtain rfl : e = o := List.singleton_inj.mp hlast
    exact .inl ⟨rfl, hfirst⟩
  | append_singleton q f _ =>
    rw [← List.append_assoc] at hsplit
    exact .inr ⟨p₁, q, (List.append_inj' hsplit rfl).1, hfirst⟩

theorem bucketIndex_of_slot {t t' : ℤ} (h : slot c t = slot c t') :
    bucketIndex c t = bucketIndex c t' := by
  simp only [bucketIndex, h]

theorem opened_later (hW : c.rollingWindow ≤ Time.maxDuration) {p q : List Event} {e o : Event}
    (hes : (p ++ [o] ++ q ++ [e]).Pairwise fun e f => e.time ≤ f.time)
    (hopen : (binning c).opened p o = o.time) (hzero : o.time ≠ 0)
    (hindex : bucketIndex c o.time = bucketIndex c e.time) (hage : e.time - o.time < c.rollingWindow) :
    (binning c).opened (p ++ [o] ++ q) e = o.time := by
  have hlast : ∀ g ∈ q, g.time ≤ e.time := by
    intro g hg
    exact (show (binning c).InOrder _ from hes).le_last (by simp [hg])
  have hfresh : (binning c).stale e.time ((binning c).opened p o) = false := by
    rw [hopen]
    exact (expired_eq_false hW).mpr ⟨hzero, hage⟩
  rw [(binning c).opened_eq_of_fresh (expired_mono hW) hindex.symm hlast hfresh, hopen]

def OpenedNear (c : CircuitBreaker) (es : List Event) : Prop :=
  ∀ p e, p ++ [e] <+: es → (binning c).opened p e ≠ 0 ∧ e.time - (binning c).opened p e ≤ bucketDur c

def OpenedInSlot (c : CircuitBreaker) (es : List Event) : Prop :=
  ∀ p e o, p ++ [e] <+: es → Opens c (p ++ [e]) o → slot c o.time = slot c e.time →
    (binning c).opened p e = o.time

variable (hes : es.Pairwise fun e f => e.time ≤ f.time) (hnano : ∀ e ∈ es, Time.Representable e.time)
include hes hnano

theorem opened_of_first (h : OpenedNear c es) {p : List Event} {o : Event} (hp : p ++ [o] <+: es)
    (hfirst : ∀ f ∈ p, slot c f.time ≠ slot c o.time) : (binning c).opened p o = o.time := by
  obtain ⟨f, hf, hplace, hopen⟩ := (binning c).opened_eq p o
  have hle : f.time ≤ o.time := (Lib.Binning.InOrder.of_prefix (B := binning c) hes hp).le_last hf
  have hnear := (h p o hp).2
  rw [hopen] at hnear ⊢
  obtain hf | hf := List.mem_append.mp hf
  · have ht := hnano f (hp.mem (List.mem_append_left _ hf))
    have ht' := hnano o (hp.mem (by simp))
    exact absurd (slot_eq_of_near c ht ht' hle hnear hplace) (hfirst f hf)
  · rw [List.mem_singleton.mp hf]
    rfl

theorem OpenedNear.inSlot (hW : c.rollingWindow ≤ Time.maxDuration) (hten : 10 ∣ c.rollingWindow)
    (h : OpenedNear c es) : OpenedInSlot c es := by
  intro p e o hp ho hslot
  obtain ⟨rfl, hfirst⟩ | ⟨p₁, p₂, rfl, hfirst⟩ := ho.concat_cases hslot
  · exact opened_of_first hes hnano h hp hfirst
  · have hp₁ : p₁ ++ [o] <+: es := by
      apply List.IsPrefix.trans _ hp
      simp
    have hopen := opened_of_first hes hnano h hp₁ hfirst
    have hzero := (h p₁ o hp₁).1
    rw [hopen] at hzero
    have hage := sub_lt_of_slot_eq c (hnano o (hp₁.mem (by simp))) (hnano e (hp.mem (by simp))) hslot
    have hwide := rollingWindow_eq hten
    have hd := bucketDur_pos c
    exact opened_later hW (hes.sublist hp.sublist) hopen hzero (bucketIndex_of_slot hslot) (by omega)

theorem Aligned.inSlot (hW : c.rollingWindow ≤ Time.maxDuration) (hten : 10 ∣ c.rollingWindow)
    (h : Aligned c es) : OpenedInSlot c es := by
  intro p
  induction hn : p.length using Nat.strong_induction_on generalizing p with
  | _ n ih =>
    intro e o hp ho hslot
    obtain ⟨rfl, hfirst⟩ | ⟨p₁, p₂, rfl, hfirst⟩ := ho.concat_cases hslot
    · obtain ⟨-, hopen⟩ | ⟨hfresh, hopen⟩ := (binning c).opened_cases p o
      · exact hopen
      · obtain hblank | ⟨q, g, hq, hplace, hstart⟩ :=
          (binning c).start_eq_opened p ((binning c).place o)
        · rw [hblank, (binning c).stale_blank] at hfresh
          cases hfresh
        · have hg : g ∈ p := hq.mem (by simp)
          have hqes : q ++ [g] <+: es := (hq.trans (List.prefix_append p [o])).trans hp
          obtain ⟨o', ho', hslot'⟩ :=
            exists_opens c (List.mem_append_right q (List.mem_singleton_self g))
          have hlen : q.length < n := by
            have := hq.length_le
            simp at this
            omega
          rw [hstart, ih q.length hlen q rfl g o' hqes ho' hslot'] at hfresh
          have hage := ((expired_eq_false hW).mp hfresh).2
          have hle : g.time ≤ o.time :=
            (Lib.Binning.InOrder.of_prefix (B := binning c) hes hp).le_last (List.mem_append_left _ hg)
          have hbefore : slot c o'.time < slot c o.time := by
            have hmono := slot_mono c (hnano g (hqes.mem (by simp))) (hnano o (hp.mem (by simp))) hle
            rw [hslot']
            exact lt_of_le_of_ne hmono (hfirst g hg)
          have hwait := h.rotated o (ho.of_prefix hp).mem o' (ho'.of_prefix hqes).mem (ho.of_prefix hp)
            (ho'.of_prefix hqes) ((bucketIndex_of_slot hslot').trans hplace) hbefore
          exact absurd hwait (not_le.mpr hage)
    · have hp₁ : p₁ ++ [o] <+: es := by
        apply List.IsPrefix.trans _ hp
        simp
      have ho₁ : Opens c (p₁ ++ [o]) o := opens_iff.mpr ⟨p₁, [], by simp, hfirst⟩
      have hopen := ih p₁.length (by simp at hn; omega) p₁ rfl o o hp₁ ho₁ rfl
      have hmem := (ho.of_prefix hp).mem
      have hzero := h.nonzero o hmem (ho.of_prefix hp)
      have hage := h.narrow o hmem (ho.of_prefix hp) e (hp.mem (by simp)) hslot.symm
      have hwide := rollingWindow_eq hten
      have hd := bucketDur_pos c
      exact opened_later hW (hes.sublist hp.sublist) hopen hzero (bucketIndex_of_slot hslot) (by omega)

theorem rotated_of_near (hW : c.rollingWindow ≤ Time.maxDuration) (h : OpenedNear c es) {o o' : Event}
    (ho : Opens c es o) (ho' : Opens c es o') (hindex : bucketIndex c o'.time = bucketIndex c o.time)
    (hbefore : slot c o'.time < slot c o.time) : c.rollingWindow ≤ o.time - o'.time := by
  obtain ⟨p, q, hsplit, hfirst⟩ := opens_iff.mp ho
  have hp : p ++ [o] <+: es := ⟨q, hsplit.symm⟩
  have hlt : o'.time < o.time := by
    by_contra hge
    have hmono := slot_mono c (hnano o ho.mem) (hnano o' ho'.mem) (not_lt.mp hge)
    exact absurd hbefore (not_lt.mpr hmono)
  have hmem : o' ∈ p := by
    have hin := ho'.mem
    rw [hsplit] at hin hes
    obtain hin | hin := List.mem_append.mp hin
    · obtain hin | hin := List.mem_append.mp hin
      · exact hin
      · rw [List.mem_singleton.mp hin] at hlt
        exact absurd hlt (lt_irrefl _)
    · exact absurd ((List.pairwise_append.mp hes).2.2 o (by simp) o' hin) (not_le.mpr hlt)
  obtain ⟨o₁, ho₁, hslot⟩ := exists_opens c hmem
  obtain rfl := ho'.unique (ho₁.of_prefix ((List.prefix_append p [o]).trans hp)) hslot.symm
  obtain ⟨p₁, p₂, rfl, hfirst'⟩ := opens_iff.mp ho₁
  have hp₁ : p₁ ++ [o'] <+: es := by
    apply List.IsPrefix.trans _ hp
    simp
  have hopen' := opened_of_first hes hnano h hp₁ hfirst'
  have hzero := (h p₁ o' hp₁).1
  rw [hopen'] at hzero
  -- were it in the window, the bucket would still be the one that the earlier slot opened
  by_contra hage
  have hopen := opened_later hW (hes.sublist hp.sublist) hopen' hzero hindex (not_le.mp hage)
  rw [opened_of_first hes hnano h hp hfirst] at hopen
  exact absurd hopen hlt.ne'

theorem aligned_iff (hW : c.rollingWindow ≤ Time.maxDuration) (hten : 10 ∣ c.rollingWindow) :
    OpenedNear c es ↔ Aligned c es := by
  constructor
  · intro h
    have hslots := h.inSlot hes hnano hW hten
    constructor
    · intro o _ o' _ ho ho' hindex hbefore
      exact rotated_of_near hes hnano hW h ho ho' hindex hbefore
    · intro o _ ho
      obtain ⟨p, q, hsplit, hfirst⟩ := opens_iff.mp ho
      have hp : p ++ [o] <+: es := ⟨q, hsplit.symm⟩
      rw [← opened_of_first hes hnano h hp hfirst]
      exact (h p o hp).1
    · intro o _ ho e he hslot
      obtain ⟨p, q, hsplit⟩ := List.append_of_mem he
      have hp : p ++ [e] <+: es := ⟨q, by rw [hsplit]; simp⟩
      obtain ⟨o', ho', hslot'⟩ := exists_opens c (List.mem_append_right p (List.mem_singleton_self e))
      obtain rfl := ho.unique (ho'.of_prefix hp) (hslot.symm.trans hslot'.symm)
      rw [← hslots p e o hp ho' hslot']
      exact (h p e hp).2
  · intro h p e hp
    obtain ⟨o, ho, hslot⟩ := exists_opens c (List.mem_append_right p (List.mem_singleton_self e))
    rw [h.inSlot hes hnano hW hten p e o hp ho hslot]
    have hmem := (ho.of_prefix hp).mem
    exact ⟨h.nonzero o hmem (ho.of_prefix hp),
      h.narrow o hmem (ho.of_prefix hp) e (hp.mem (by simp)) hslot.symm⟩

end Forgetting

/-- The totals count what is in `counted`: every event younger than nine tenths of the window, at
every moment, exactly if the events are aligned with the buckets. -/
theorem counts_recent_iff_aligned (c : CircuitBreaker) (hW : c.rollingWindow ≤ Time.maxDuration)
    (hten : 10 ∣ c.rollingWindow) (es : List Event) (hes : es.Pairwise fun e f => e.time ≤ f.time)
    (hnano : ∀ e ∈ es, Time.Representable e.time) :
    (∀ st p now, st.buckets = [] →
      windowTotals c now (recordEvents c st p) = tally (counted c now p)) ∧
    ((∀ p, p <+: es → ∀ now, (∀ f ∈ p, f.time ≤ now) → ∀ e ∈ p,
      now - e.time < c.rollingWindow - c.rollingWindow / 10 → e ∈ counted c now p) ↔
        Aligned c es) := by
  constructor
  · intro st p now hst
    exact (tallies_recordEvents hst p).totals now
  · rw [← aligned_iff hes hnano hW hten]
    have hkeeps := (binning c).keeps_recent_iff (expired_mono hW)
      (fun now e => now - e.time < c.rollingWindow - c.rollingWindow / 10) hes
    apply Iff.trans hkeeps
    apply forall_congr'
    intro p
    apply forall_congr'
    intro e
    apply imp_congr_right
    intro _
    exact fresh_while_recent hW hten

/-- Events that leave a whole window between two uses of a bucket are all counted. -/
theorem counts_recent_iff_aligned_brief :
    let c := newCircuitBreakerWithConfig briefConfig
    let es : List Event := [⟨Time.unixEpoch + 9, true⟩, ⟨Time.unixEpoch + 109, false⟩]
    ∀ p, p <+: es → ∀ now, (∀ f ∈ p, f.time ≤ now) → ∀ e ∈ p,
      now - e.time < c.rollingWindow - c.rollingWindow / 10 → e ∈ counted c now p := by
  intro c es
  have h := counts_recent_iff_aligned c (by decide) (by decide) es (by decide) (by decide +kernel)
  exact h.2.mpr ⟨by decide +kernel, by decide +kernel, by decide +kernel⟩

/-- An event a window's length after its bucket began goes into the old bucket and is dropped with
it nine ticks later. -/
theorem window_forgets_at_rotation :
    let c := newCircuitBreakerWithConfig briefConfig
    let es : List Event := [⟨Time.unixEpoch + 9, false⟩, ⟨Time.unixEpoch + 100, false⟩]
    let now := Time.unixEpoch + 109
    10 ∣ c.rollingWindow ∧ (es.Pairwise fun e f => e.time ≤ f.time) ∧ (∀ e ∈ es, e.time ≤ now) ∧
      (∃ e ∈ es, now - e.time < c.rollingWindow - c.rollingWindow / 10) ∧
      windowTotals c now (recordEvents c {} es) = (0, 0) := by
  decide +kernel

end ReverseProxyLb.Circuit
