import ReverseProxyLb.Lib.Crowd
import ReverseProxyLb.Lib.Sweep

/-! A response time is recorded in three updates: the count, the sum and one bucket. A
scrape loads the count first, so a call that falls in between is in a bucket and not in the
count. -/
namespace ReverseProxyLb.Metrics
open Lib

def latencyBucketBounds : List ℤ :=
  [5000000, 10000000, 25000000, 50000000, 100000000, 250000000, 500000000, 1000000000, 2500000000,
    5000000000,
    10000000000]

/-- The counters, of which the first two are sharded. -/
structure Histogram where
  histCount : List ℕ
  histSumNanos : List ℤ
  histBuckets : List ℕ := List.replicate latencyBucketBounds.length 0

/-- What a call of `RecordResponseTime` has updated, with whether the scrape finds it in the count
and in the bucket. -/
inductive Stage where
  | begun
  | counted (inCount : Bool)
  | summed (inCount : Bool)
  | done (inCount inBucket : Bool)

def Stage.inCount : Stage → Bool
  | .begun => false
  | .counted seen => seen
  | .summed seen => seen
  | .done seen _ => seen

def Stage.inBucket : Stage → Bool
  | .done _ seen => seen
  | _ => false

structure Call where
  duration : ℤ
  stage : Stage := .begun

def bucketOf (d : ℤ) : Option ℕ := latencyBucketBounds.findIdx? fun ub => d ≤ ub

/-- The loads of the histogram part of `PrometheusHandler`, with the values written so far. -/
structure Scrape where
  count : Sweep ℕ := .start
  sum : Sweep ℤ := .start
  bucket : Sweep ℕ := .start
  written : List ℕ := []

def Scrape.load (h : Histogram) (s : Scrape) : Option Scrape :=
  match s.count.load h.histCount with
  | some count => some { s with count := count }
  | none =>
    match s.sum.load h.histSumNanos with
    | some sum => some { s with sum := sum }
    | none =>
      (s.bucket.load h.histBuckets).map fun bucket =>
        { s with bucket := bucket, written := s.written ++ [bucket.sum] }

/-- The samples of a scrape: the buckets by their bounds, `le="+Inf"`, the sum and the count. -/
structure Exposition where
  buckets : List (ℤ × ℕ)
  inf : ℕ
  sum : ℤ
  count : ℕ
  deriving DecidableEq

def Scrape.expose (s : Scrape) : Exposition where
  buckets := latencyBucketBounds.zip s.written
  inf := s.count.sum
  sum := s.sum.sum
  count := s.count.sum

structure Scraped where
  hist : Histogram
  scrape : Scrape := {}

def record (σ : Scraped) (c : Call) (shard : ℕ) : Option (Scraped × Call) :=
  match c.stage with
  | .begun =>
    if shard < σ.hist.histCount.length then
      some ({ σ with hist := { σ.hist with histCount := σ.hist.histCount.modify shard (· + 1) } },
        { c with stage := .counted (decide (σ.scrape.count.next ≤ shard)) })
    else none
  | .counted seen =>
    if shard < σ.hist.histSumNanos.length then
      some ({ σ with hist := { σ.hist with
          histSumNanos := σ.hist.histSumNanos.modify shard (· + c.duration) } },
        { c with stage := .summed seen })
    else none
  | .summed seen =>
    match bucketOf c.duration with
    | some i =>
      some ({ σ with hist := { σ.hist with histBuckets := σ.hist.histBuckets.modify i (· + 1) } },
        { c with stage := .done seen (decide (σ.scrape.bucket.next ≤ i)) })
    | none => some (σ, { c with stage := .done seen false })
  | .done _ _ => none

def rules : Crowd.Rules Scraped Call ℤ ℕ Unit where
  enter σ d := some (σ, { duration := d })
  act := record
  outside σ _ := (σ.scrape.load σ.hist).map fun scrape => { σ with scrape := scrape }

def start (shards : ℕ) : Crowd Scraped Call where
  shared :=
    { hist := { histCount := List.replicate shards 0, histSumNanos := List.replicate shards 0 } }
  parties := []

abbrev Move := Crowd.Move ℤ ℕ Unit

variable {c c' : Crowd Scraped Call} {m : Move} {σ σ' : Scraped} {p p' : Call} {shard shards : ℕ}

theorem lt_of_bucketOf {d : ℤ} {i : ℕ} (h : bucketOf d = some i) : i < latencyBucketBounds.length := by
  obtain ⟨hlt, -⟩ := List.findIdx?_eq_some_iff_getElem.mp h
  exact hlt

theorem record_cases (h : record σ p shard = some (σ', p')) :
    (p.stage = .begun ∧ shard < σ.hist.histCount.length ∧
        σ' = { σ with hist := { σ.hist with histCount := σ.hist.histCount.modify shard (· + 1) } } ∧
        p' = { p with stage := .counted (decide (σ.scrape.count.next ≤ shard)) }) ∨
      (∃ seen, p.stage = .counted seen ∧
        σ' = { σ with hist :=
          { σ.hist with histSumNanos := σ.hist.histSumNanos.modify shard (· + p.duration) } } ∧
        p' = { p with stage := .summed seen }) ∨
      (∃ seen i, p.stage = .summed seen ∧ bucketOf p.duration = some i ∧
        σ' = { σ with hist := { σ.hist with histBuckets := σ.hist.histBuckets.modify i (· + 1) } } ∧
        p' = { p with stage := .done seen (decide (σ.scrape.bucket.next ≤ i)) }) ∨
      ∃ seen, p.stage = .summed seen ∧ bucketOf p.duration = none ∧ σ' = σ ∧
        p' = { p with stage := .done seen false } := by
  unfold record at h
  split at h
  case h_1 hstage =>
    split_ifs at h with hlt
    cases h
    exact .inl ⟨hstage, hlt, rfl, rfl⟩
  case h_2 seen hstage =>
    split_ifs at h
    cases h
    exact .inr (.inl ⟨seen, hstage, rfl, rfl⟩)
  case h_3 seen hstage =>
    split at h
    case h_1 i hi =>
      cases h
      exact .inr (.inr (.inl ⟨seen, i, hstage, hi, rfl, rfl⟩))
    case h_2 hi =>
      cases h
      exact .inr (.inr (.inr ⟨seen, hstage, hi, rfl, rfl⟩))
  case h_4 => cases h

theorem load_cases {h : Histogram} {s s' : Scrape} (hload : s.load h = some s') :
    (∃ count, s.count.load h.histCount = some count ∧ s' = { s with count := count }) ∨
      (∃ sum, s.sum.load h.histSumNanos = some sum ∧ s' = { s with sum := sum }) ∨
      ∃ bucket, s.bucket.load h.histBuckets = some bucket ∧
        s' = { s with bucket := bucket, written := s.written ++ [bucket.sum] } := by
  unfold Scrape.load at hload
  split at hload
  case h_1 count hcount =>
    cases hload
    exact .inl ⟨count, hcount, rfl⟩
  case h_2 =>
    split at hload
    case h_1 sum hsum =>
      cases hload
      exact .inr (.inl ⟨sum, hsum, rfl⟩)
    case h_2 =>
      obtain ⟨bucket, hbucket, rfl⟩ := Option.map_eq_some_iff.mp hload
      exact .inr (.inr ⟨bucket, hbucket, rfl⟩)

theorem load_eq_none {h : Histogram} {s : Scrape} (hload : s.load h = none) :
    s.count.load h.histCount = none ∧ s.bucket.load h.histBuckets = none := by
  unfold Scrape.load at hload
  split at hload
  case h_1 => cases hload
  case h_2 hcount =>
    split at hload
    case h_1 => cases hload
    case h_2 => exact ⟨hcount, Option.map_eq_none_iff.mp hload⟩

/-- The count and the sum of the buckets that the scrape would end with if no call went on. -/
def Scraped.countAhead (σ : Scraped) : ℤ := (σ.scrape.count.outlook σ.hist.histCount : ℕ)

def Scraped.bucketAhead (σ : Scraped) : ℤ := (σ.scrape.bucket.outlook σ.hist.histBuckets : ℕ)

/-- The values written so far are the sums on the way to the present one. -/
structure Writes (σ : Scraped) : Prop where
  buckets : σ.hist.histBuckets.length = latencyBucketBounds.length
  length : σ.scrape.written.length = σ.scrape.bucket.next
  bound : σ.scrape.bucket.next ≤ latencyBucketBounds.length
  sorted : σ.scrape.written.Pairwise (· ≤ ·)
  le : ∀ v ∈ σ.scrape.written, v ≤ σ.scrape.bucket.sum
  last : σ.scrape.bucket.sum = 0 ∨ σ.scrape.bucket.sum ∈ σ.scrape.written

theorem Writes.record (h : Writes σ) (hr : record σ p shard = some (σ', p')) : Writes σ' := by
  obtain ⟨-, -, rfl, -⟩ | ⟨seen, -, rfl, -⟩ | ⟨seen, i, -, -, rfl, -⟩ | ⟨seen, -, -, rfl, -⟩ :=
    record_cases hr
  · exact ⟨h.buckets, h.length, h.bound, h.sorted, h.le, h.last⟩
  · exact ⟨h.buckets, h.length, h.bound, h.sorted, h.le, h.last⟩
  · exact ⟨by rw [List.length_modify, h.buckets], h.length, h.bound, h.sorted, h.le, h.last⟩
  · exact h

theorem Writes.load (h : Writes σ) {scrape : Scrape} (hload : σ.scrape.load σ.hist = some scrape) :
    Writes { σ with scrape := scrape } := by
  obtain ⟨count, -, rfl⟩ | ⟨sum, -, rfl⟩ | ⟨bucket, hbucket, rfl⟩ := load_cases hload
  · exact ⟨h.buckets, h.length, h.bound, h.sorted, h.le, h.last⟩
  · exact ⟨h.buckets, h.length, h.bound, h.sorted, h.le, h.last⟩
  · obtain ⟨v, hv, rfl⟩ := Sweep.load_eq_some hbucket
    have hlt : σ.scrape.bucket.next < latencyBucketBounds.length := by
      rw [← h.buckets]
      exact (List.getElem?_eq_some_iff.mp hv).1
    refine ⟨h.buckets, by simp [h.length], hlt, ?_, fun u hu => ?_, .inr (by simp)⟩
    · refine List.pairwise_append.mpr ⟨h.sorted, List.pairwise_singleton _ _, fun u hu w hw => ?_⟩
      rw [List.mem_singleton.mp hw]
      exact (h.le u hu).trans (Nat.le_add_right _ _)
    · rcases List.mem_append.mp hu with hu | hu
      · exact (h.le u hu).trans (Nat.le_add_right _ _)
      · rw [List.mem_singleton.mp hu]

theorem countAhead_record (hr : record σ p shard = some (σ', p')) : σ'.countAhead =
    σ.countAhead - (if p.stage.inCount then 1 else 0) + if p'.stage.inCount then 1 else 0 := by
  obtain ⟨hstage, hlt, rfl, rfl⟩ | ⟨seen, hstage, rfl, rfl⟩ | ⟨seen, i, hstage, -, rfl, rfl⟩ |
    ⟨seen, hstage, -, rfl, rfl⟩ := record_cases hr
  · simp only [Scraped.countAhead, Sweep.outlook_modify hlt, hstage, Stage.inCount, decide_eq_true_eq]
    push_cast
    simp
  · cases seen <;> simp [Scraped.countAhead, hstage, Stage.inCount]
  · cases seen <;> simp [Scraped.countAhead, hstage, Stage.inCount]
  · cases seen <;> simp [hstage, Stage.inCount]

theorem bucketAhead_record (h : Writes σ) (hr : record σ p shard = some (σ', p')) : σ'.bucketAhead =
    σ.bucketAhead - (if p.stage.inBucket then 1 else 0) + if p'.stage.inBucket then 1 else 0 := by
  obtain ⟨hstage, -, rfl, rfl⟩ | ⟨seen, hstage, rfl, rfl⟩ | ⟨seen, i, hstage, hi, rfl, rfl⟩ |
    ⟨seen, hstage, -, rfl, rfl⟩ := record_cases hr
  · simp [Scraped.bucketAhead, hstage, Stage.inBucket]
  · simp [Scraped.bucketAhead, hstage, Stage.inBucket]
  · have hlt : i < σ.hist.histBuckets.length := by
      rw [h.buckets]
      exact lt_of_bucketOf hi
    simp only [Scraped.bucketAhead, Sweep.outlook_modify hlt, hstage, Stage.inBucket,
      decide_eq_true_eq]
    push_cast
    simp
  · simp [hstage, Stage.inBucket]

theorem ahead_load {scrape : Scrape} (hload : σ.scrape.load σ.hist = some scrape) :
    Scraped.countAhead { σ with scrape := scrape } = σ.countAhead ∧
      Scraped.bucketAhead { σ with scrape := scrape } = σ.bucketAhead := by
  obtain ⟨count, hcount, rfl⟩ | ⟨sum, -, rfl⟩ | ⟨bucket, hbucket, rfl⟩ := load_cases hload
  · simp [Scraped.countAhead, Scraped.bucketAhead, Sweep.outlook_load hcount]
  · exact ⟨rfl, rfl⟩
  · simp [Scraped.countAhead, Scraped.bucketAhead, Sweep.outlook_load hbucket]

/-- What the scrape will find is what the calls are in. -/
structure Sound (c : Crowd Scraped Call) : Prop where
  writes : Writes c.shared
  count : c.shared.countAhead = c.total fun p => if p.stage.inCount then 1 else 0
  bucket : c.shared.bucketAhead = c.total fun p => if p.stage.inBucket then 1 else 0

theorem Sound.step (h : Sound c) (hs : c.step rules m = some c') : Sound c' := by
  constructor
  · obtain ⟨d, σ, p, rfl, hr, rfl⟩ | ⟨i, a, p, σ, p', rfl, -, hr, rfl⟩ | ⟨e, σ, rfl, hr, rfl⟩ :=
      Crowd.step_cases hs
    · cases hr
      exact h.writes
    · exact h.writes.record hr
    · obtain ⟨scrape, hload, rfl⟩ := Option.map_eq_some_iff.mp hr
      exact h.writes.load hload
  · refine Crowd.total_step_of_mem (fun σ d σ' p hr => ?_) (fun p a σ' p' _ hr => countAhead_record hr)
      (fun σ e σ' hr => ?_) h.count hs
    · cases hr
      simp [Stage.inCount]
    · obtain ⟨scrape, hload, rfl⟩ := Option.map_eq_some_iff.mp hr
      exact (ahead_load hload).1
  · refine Crowd.total_step_of_mem
      (fun σ d σ' p hr => ?_) (fun p a σ' p' _ hr => bucketAhead_record h.writes hr)
      (fun σ e σ' hr => ?_) h.bucket hs
    · cases hr
      simp [Stage.inBucket]
    · obtain ⟨scrape, hload, rfl⟩ := Option.map_eq_some_iff.mp hr
      exact (ahead_load hload).2

theorem sound_start (shards : ℕ) : Sound (start shards) := by
  constructor
  · constructor <;> simp [start, Sweep.start]
  · simp [start, Scraped.countAhead, Sweep.outlook_start, Crowd.total]
  · simp [start, Scraped.bucketAhead, Sweep.outlook_start, Crowd.total]

theorem sound_run {ms : List Move} (hr : exec (Crowd.step rules) (start shards) ms = some c) :
    Sound c := by
  have hkeep : ∀ c m c', Sound c → Crowd.step rules c m = some c' → Sound c' :=
    fun c m c' h hs => h.step hs
  exact exec_keeps hkeep hr (sound_start shards)

def Call.late (p : Call) : Bool := p.stage.inBucket && !p.stage.inCount

def Call.missed (p : Call) : Bool := p.stage.inCount && !p.stage.inBucket

theorem countP_inBucket (ps : List Call) :
    (ps.countP fun p => p.stage.inBucket) + ps.countP Call.missed =
    (ps.countP fun p => p.stage.inCount) + ps.countP Call.late := by
  induction ps with
  | nil => rfl
  | cons p ps ih =>
    rw [List.countP_cons, List.countP_cons, List.countP_cons, List.countP_cons]
    cases hb : p.stage.inBucket <;> cases hc :
      p.stage.inCount <;> simp [Call.missed, Call.late, hb, hc] <;> omega

theorem bounds_sorted : latencyBucketBounds.Pairwise (· < ·) := by decide

theorem Writes.pairwise (h : Writes σ) :
    σ.scrape.expose.buckets.Pairwise fun x y => x.1 < y.1 ∧ x.2 ≤ y.2 := by
  rw [List.pairwise_iff_getElem]
  intro i j hi hj hij
  simp only [Scrape.expose, List.length_zip, lt_min_iff] at hi hj
  simp only [Scrape.expose, List.getElem_zip]
  exact ⟨List.pairwise_iff_getElem.mp bounds_sorted i j hi.1 hj.1 hij,
    List.pairwise_iff_getElem.mp h.sorted i j hi.2 hj.2 hij⟩

theorem Writes.buckets_le_iff (h : Writes σ) (n : ℕ) :
    (∀ x ∈ σ.scrape.expose.buckets, x.2 ≤ n) ↔ σ.scrape.bucket.sum ≤ n := by
  have hvalues : σ.scrape.expose.buckets.map Prod.snd = σ.scrape.written :=
    List.map_snd_zip (by rw [h.length]; exact h.bound)
  constructor
  · intro hall
    rcases h.last with hzero | hmem
    · rw [hzero]
      exact Nat.zero_le n
    · rw [← hvalues] at hmem
      obtain ⟨x, hx, hsum⟩ := List.mem_map.mp hmem
      rw [← hsum]
      exact hall x hx
  · intro hle x hx
    have hmem : x.2 ∈ σ.scrape.written := by
      rw [← hvalues]
      exact List.mem_map_of_mem hx
    exact (h.le x.2 hmem).trans hle

theorem exposed_le_iff (h : Sound c) (hdone : c.shared.scrape.load c.shared.hist = none) :
    (∀ x ∈ c.shared.scrape.expose.buckets, x.2 ≤ c.shared.scrape.expose.inf) ↔
      c.parties.countP Call.late ≤ c.parties.countP Call.missed := by
  obtain ⟨hcount, hbucket⟩ := load_eq_none hdone
  have hfound : (c.shared.scrape.count.sum : ℤ) = c.parties.countP fun p => p.stage.inCount := by
    rw [← Crowd.total_indicator, ← h.count, Scraped.countAhead, Sweep.outlook_of_done hcount]
  have hsum : (c.shared.scrape.bucket.sum : ℤ) = c.parties.countP fun p => p.stage.inBucket := by
    rw [← Crowd.total_indicator, ← h.bucket, Scraped.bucketAhead, Sweep.outlook_of_done hbucket]
  have hparts := countP_inBucket c.parties
  rw [h.writes.buckets_le_iff]
  change c.shared.scrape.bucket.sum ≤ c.shared.scrape.count.sum ↔ _
  omega

/-- The scrape has missed the call in the count, and the call is about to update a bucket that the
scrape has yet to load. -/
def Call.early (σ : Scraped) (p : Call) : Bool :=
  match p.stage with
  | .summed false => (bucketOf p.duration).any fun i => decide (σ.scrape.bucket.next ≤ i)
  | _ => false

def timely (c : Crowd Scraped Call) : Move → Bool
  | .act i _ => (c.parties[i]?).all fun p => !p.early c.shared
  | _ => true

theorem late_record (hr : record σ p shard = some (σ', p')) : p'.late = p.early σ := by
  obtain ⟨hstage, -, -, rfl⟩ | ⟨seen, hstage, -, rfl⟩ | ⟨seen, i, hstage, hi, -, rfl⟩ |
    ⟨seen, hstage, hi, -, rfl⟩ := record_cases hr
  · simp [Call.late, Call.early, Stage.inBucket, hstage]
  · simp [Call.late, Call.early, Stage.inBucket, hstage]
  · cases seen <;> simp [Call.late, Call.early, Stage.inBucket, Stage.inCount, hstage, hi]
  · cases seen <;> simp [Call.late, Call.early, Stage.inBucket, hstage, hi]

theorem record_late (h : p.late = true) : record σ p shard = none := by
  obtain ⟨d, stage⟩ := p
  cases stage with
  | done => rfl
  | _ => cases h

def NoneLate (c : Crowd Scraped Call) : Prop := ∀ p ∈ c.parties, p.late = false

theorem NoneLate.step (h : NoneLate c) (hm : timely c m = true) (hs : c.step rules m = some c') :
    NoneLate c' := by
  obtain ⟨d, σ, p, rfl, hr, rfl⟩ | ⟨i, a, p, σ, p', rfl, hp, hr, rfl⟩ | ⟨e, σ, rfl, hr, rfl⟩ :=
    Crowd.step_cases hs
  · cases hr
    exact List.forall_mem_append.mpr ⟨h, List.forall_mem_singleton.mpr rfl⟩
  · intro q hq
    rcases List.mem_or_eq_of_mem_set hq with hq | rfl
    · exact h q hq
    · rw [late_record hr]
      simpa [timely, hp] using hm
  · exact h

theorem noneLate_of_step (h : NoneLate c') (hs : c.step rules m = some c') :
    timely c m = true ∧ NoneLate c := by
  obtain ⟨d, σ, p, rfl, hr, rfl⟩ | ⟨i, a, p, σ, p', rfl, hp, hr, rfl⟩ | ⟨e, σ, rfl, hr, rfl⟩ :=
    Crowd.step_cases hs
  · exact ⟨rfl, fun q hq => h q (List.mem_append_left _ hq)⟩
  · obtain ⟨hi, -⟩ := List.getElem?_eq_some_iff.mp hp
    have hnew : p'.late = false := h p' (List.mem_set hi p')
    refine ⟨by simpa [timely, hp, late_record hr] using hnew, fun q hq => ?_⟩
    obtain ⟨j, hj⟩ := List.mem_iff_getElem?.mp hq
    by_cases hij : i = j
    · subst hij
      obtain rfl : p = q := Option.some.inj (hp.symm.trans hj)
      apply Bool.eq_false_of_not_eq_true
      intro hlate
      cases hr.symm.trans (record_late hlate)
    · apply h q
      apply List.mem_iff_getElem?.mpr
      exact ⟨j, by rw [List.getElem?_set_ne hij]; exact hj⟩
  · exact ⟨rfl, h⟩

theorem meets_of_noneLate {ms : List Move} {c₀ : Crowd Scraped Call}
    (hr : exec (Crowd.step rules) c₀ ms = some c) (h : NoneLate c) :
    Meets (Crowd.step rules) (fun c m => timely c m = true) c₀ ms ∧ NoneLate c₀ := by
  induction ms generalizing c₀ with
  | nil =>
    obtain rfl : c₀ = c := Option.some.inj hr
    exact ⟨trivial, h⟩
  | cons m ms ih =>
    obtain ⟨c₁, hs, hr'⟩ := exec_cons_eq_some hr
    obtain ⟨hms, h₁⟩ := ih hr'
    obtain ⟨hm, h₀⟩ := noneLate_of_step h₁ hs
    refine ⟨⟨hm, fun c₂ hc₂ => ?_⟩, h₀⟩
    obtain rfl : c₁ = c₂ := Option.some.inj (hs.symm.trans hc₂)
    exact hms

/-- In every interleaving the buckets of the finished scrape grow with their bounds and
`le="+Inf"` is the count. No bucket exceeds it if a call that the scrape has missed in the count
updates its bucket only after the scrape has loaded it. -/
theorem scrape_consistent_of_timely (shards : ℕ) (ms : List Move) (c : Crowd Scraped Call)
    (hr : exec (Crowd.step rules) (start shards) ms = some c)
    (hdone : c.shared.scrape.load c.shared.hist = none) :
    (c.shared.scrape.expose.buckets.Pairwise fun x y => x.1 < y.1 ∧ x.2 ≤ y.2) ∧
      c.shared.scrape.expose.inf = c.shared.scrape.expose.count ∧
      (Meets (Crowd.step rules) (fun c m => timely c m = true) (start shards) ms →
        ∀ x ∈ c.shared.scrape.expose.buckets, x.2 ≤ c.shared.scrape.expose.inf) ∧
      ((∀ p ∈ c.parties, p.missed = false) →
        (∀ x ∈ c.shared.scrape.expose.buckets, x.2 ≤ c.shared.scrape.expose.inf) →
        Meets (Crowd.step rules) (fun c m => timely c m = true) (start shards) ms) := by
  have h := sound_run hr
  have hiff := exposed_le_iff h hdone
  refine ⟨h.writes.pairwise, rfl, fun hm => ?_, fun hmissed hle => ?_⟩
  · have hnone : NoneLate c := by
      apply exec_invariant (fun c m c' hi hok hs => NoneLate.step hi hok hs) hm hr
      intro p hp
      cases hp
    have hzero : c.parties.countP Call.late = 0 := by
      apply List.countP_eq_zero.mpr
      intro p hp
      simp [hnone p hp]
    rw [hiff, hzero]
    exact Nat.zero_le _
  · have hzero : c.parties.countP Call.missed = 0 := by
      apply List.countP_eq_zero.mpr
      intro p hp
      simp [hmissed p hp]
    rw [hiff, hzero, Nat.le_zero, List.countP_eq_zero] at hle
    exact (meets_of_noneLate hr fun p hp => Bool.eq_false_of_not_eq_true (hle p hp)).1

def amidScrape : List Move :=
  [.outside (), .outside (), .enter 1000000, .act 0 0, .act 0 0, .act 0 0] ++
    List.replicate 11 (.outside ())

/-- Every bucket shows one observation, and the count shows none. -/
theorem buckets_exceed_inf :
    ((exec (Crowd.step rules) (start 1) amidScrape).map fun c =>
      ((c.shared.scrape.load c.shared.hist).isNone, c.shared.scrape.expose)) =
      some (true,
        { buckets := latencyBucketBounds.map fun ub => (ub, 1), inf := 0, sum := 0, count := 0 }) := by
  decide +kernel

/-- A call before a scrape, and one after the load of the count. -/
def aroundScrape : List Move :=
  [.enter 1000000, .act 0 0, .act 0 0, .act 0 0, .outside (), .outside (), .enter 1000000, .act 1 0,
    .act 1 0,
    .outside (), .act 1 0] ++ List.replicate 10 (.outside ())

theorem scrape_consistent_around : ∃ c, exec (Crowd.step rules) (start 1) aroundScrape = some c ∧
    c.parties.length = 2 ∧ c.shared.scrape.expose.inf = 1 ∧
      ∀ x ∈ c.shared.scrape.expose.buckets, x.2 ≤ c.shared.scrape.expose.inf := by
  have hrun : (exec (Crowd.step rules) (start 1) aroundScrape).map (fun c =>
      ((c.shared.scrape.load c.shared.hist).isNone, c.parties.length, c.shared.scrape.expose.inf)) =
        some (true, 2, 1) := by
    decide +kernel
  obtain ⟨c, hc, hvalues⟩ := Option.map_eq_some_iff.mp hrun
  obtain ⟨hnone, hrest⟩ := Prod.mk_inj.mp hvalues
  obtain ⟨hlength, hinf⟩ := Prod.mk_inj.mp hrest
  have hdone := Option.isNone_iff_eq_none.mp hnone
  exact ⟨c, hc, hlength, hinf,
    (scrape_consistent_of_timely 1 aroundScrape c hc hdone).2.2.1 (by decide +kernel)⟩

end ReverseProxyLb.Metrics
