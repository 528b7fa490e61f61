import ReverseProxyLb.Limiter.Gcra

/-! `MemStore` adds the interval before it subtracts the tolerance, so it is the meter of
the local limiter with one interval less of tolerance. -/
namespace ReverseProxyLb.Limiter
open Lib GcraLimiter

structure MemStore where
  buckets : String → Option ℤ := fun _ => none

/-- What `Allow` is called with besides the key. -/
structure Offer where
  rps : ℚ
  burst : ℤ
  now : ℤ

namespace MemStore

def allow (m : MemStore) (key : String) (rps : ℚ) (burst now : ℤ) : (Bool × ℤ) × MemStore :=
  if rps ≤ 0 then ((true, 0), m) else
    let burst := if burst < 1 then 1 else burst
    let emission := Time.ofFloat64 (float64 (Time.second / rps))
    let tolerance := int64 (emission * (burst - 1))
    let tat := match m.buckets key with
      | some tat => if tat < now then now else tat
      | none => now
    let newTat := tat + emission
    let allowAt := newTat - tolerance
    if now < allowAt then ((false, Time.sub allowAt now), m)
    else ((true, 0), { m with buckets := Function.update m.buckets key (some newTat) })

def call (m : MemStore) (x : String × Offer) : (Bool × ℤ) × MemStore :=
  m.allow x.1 x.2.rps x.2.burst x.2.now

def tat (m : MemStore) (key : String) : WithBot ℤ := (m.buckets key).elim ⊥ WithBot.some

def meter (rps : ℚ) (burst : ℤ) : Meter ℤ :=
  let emission := Time.ofFloat64 (float64 (Time.second / rps))
  ⟨emission, int64 (emission * ((if burst < 1 then 1 else burst) - 1)) - emission⟩

def bucket (s : WithBot ℤ) (o : Offer) : (Bool × ℤ) × WithBot ℤ :=
  if o.rps ≤ 0 then ((true, 0), s)
  else (clip ((meter o.rps o.burst).reserve s o.now).1, ((meter o.rps o.burst).reserve s o.now).2)

variable {m : MemStore}

theorem tat_update (key : String) (tat : ℤ) :
    MemStore.tat { m with buckets := Function.update m.buckets key (some tat) } =
      Function.update m.tat key tat := by
  funext k
  by_cases hk : k = key
  · subst hk
    simp [MemStore.tat]
  · simp [MemStore.tat, hk]

theorem judge_eq (key : String) (emission tolerance now : ℤ) :
    let newTat := Meter.arrival (m.tat key) now + emission
    let judged := if now < newTat - tolerance then ((false, Time.sub (newTat - tolerance) now), m)
      else ((true, 0), { m with buckets := Function.update m.buckets key (some newTat) })
    let metered := (Meter.mk emission (tolerance - emission)).reserve (m.tat key) now
    judged.1 = clip metered.1 ∧ judged.2.tat = Function.update m.tat key metered.2 := by
  intro newTat judged metered
  have hshift : Meter.arrival (m.tat key) now - (tolerance - emission) = newTat - tolerance := by
    change _ = Meter.arrival (m.tat key) now + emission - tolerance
    ring
  by_cases hlt : now < newTat - tolerance
  · have hmetered : metered = ((false, newTat - tolerance - now), m.tat key) := by
      rw [← hshift] at hlt ⊢
      exact Meter.reserve_of_not_le (not_le.mpr hlt)
    have hjudged : judged = ((false, Time.sub (newTat - tolerance) now), m) := if_pos hlt
    rw [hmetered, hjudged]
    exact ⟨rfl, (Function.update_eq_self _ _).symm⟩
  · have hmetered : metered = ((true, 0), (newTat : WithBot ℤ)) :=
      Meter.reserve_of_le (hshift ▸ not_lt.mp hlt)
    have hjudged : judged =
        ((true, 0), { m with buckets := Function.update m.buckets key (some newTat) }) :=
      if_neg hlt
    rw [hmetered, hjudged]
    exact ⟨rfl, tat_update key newTat⟩

theorem allow_reply (key : String) (rps : ℚ) (burst now : ℤ) :
    (m.allow key rps burst now).1 = (bucket (m.tat key) ⟨rps, burst, now⟩).1 ∧
      (m.allow key rps burst now).2.tat =
        Function.update m.tat key (bucket (m.tat key) ⟨rps, burst, now⟩).2 := by
  have hjudge := judge_eq (m := m) key (meter rps burst).interval
    ((meter rps burst).tolerance + (meter rps burst).interval) now
  simp only [meter, sub_add_cancel] at hjudge
  unfold allow bucket
  by_cases hr : rps ≤ 0
  · simp only [if_pos hr, Function.update_eq_self, and_self]
  simp only [if_neg hr]
  cases htat : m.buckets key with
  | none =>
    have harrival : Meter.arrival (m.tat key) now = now := by simp [tat, htat]
    rw [harrival] at hjudge
    exact hjudge
  | some a =>
    have harrival : Meter.arrival (m.tat key) now = if a < now then now else a := by
      rw [tat, htat]
      change max a now = _
      split <;> omega
    rw [harrival] at hjudge
    exact hjudge

theorem replies_call (xs : List (String × Offer)) :
    replies call m xs = replies (keyed bucket) m.tat xs := by
  induction xs generalizing m with
  | nil => rfl
  | cons x xs ih =>
    obtain ⟨hreply, htat⟩ := allow_reply (m := m) x.1 x.2.rps x.2.burst x.2.now
    rw [replies_cons, replies_cons, ih]
    change (m.allow x.1 x.2.rps x.2.burst x.2.now).1 ::
      replies (keyed bucket) (m.allow x.1 x.2.rps x.2.burst x.2.now).2.tat xs = _
    rw [hreply, htat]
    rfl

theorem replies_bucket {rps : ℚ} {burst : ℤ} (hr : 0 < rps) {s : WithBot ℤ} {os : List Offer}
    (h : ∀ o ∈ os, o.rps = rps ∧ o.burst = burst) :
    replies bucket s os = (replies (meter rps burst).reserve s (os.map Offer.now)).map clip := by
  induction os generalizing s with
  | nil => rfl
  | cons o os ih =>
    obtain ⟨hrps, hburst⟩ := h o (List.mem_cons_self ..)
    have hbucket : bucket s o =
        (clip ((meter rps burst).reserve s o.now).1, ((meter rps burst).reserve s o.now).2) := by
      rw [bucket, hrps, hburst, if_neg (not_le.mpr hr)]
    rw [replies_cons, hbucket, ih fun o' ho => h o' (List.mem_cons_of_mem _ ho), List.map_cons,
      replies_cons, List.map_cons]

def timesAt (key : String) (calls : List (String × Offer)) : List ℤ :=
  (inputsAt key calls).map Offer.now

theorem repliesAt_call {rps : ℚ} {burst : ℤ} (hr : 0 < rps) {key : String}
    {calls : List (String × Offer)} (h : ∀ o ∈ inputsAt key calls, o.rps = rps ∧ o.burst = burst) :
    repliesAt key calls (replies call m calls) =
      (replies (meter rps burst).reserve (m.tat key) (timesAt key calls)).map clip := by
  rw [replies_call, repliesAt_keyed, replies_bucket hr h]
  rfl

/-- The store replies on the key as a local limiter does that is called at the same times. -/
def Matches (rps : ℚ) (burst : ℤ) (key : String) (calls : List (String × Offer)) : Prop :=
  repliesAt key calls (replies call {} calls) =
    replies GcraLimiter.reserve (newGCRA rps burst) (timesAt key calls)

/-- From any call to any later one there are as many intervals as leave room for one call more. -/
def LeaveRoom (emission burst : ℤ) (ts : List ℤ) : Prop :=
  ∀ (i j : ℕ) (t u : ℤ), i ≤ j → ts[i]? = some t → ts[j]? = some u →
    t + (j - i + 2 - burst) * emission ≤ u

def LateEnough (emission burst : ℤ) (ts : List ℤ) : Prop :=
  ∀ (j : ℕ) (u : ℤ), ts[j]? = some u → (j + 1 - burst) * emission ≤ u

section Matches
variable {rps : ℚ} {burst : ℤ} {ts : List ℤ}

theorem meter_eq (hr : 0 < rps) (hb : 1 ≤ burst) : meter rps burst =
    ⟨(newGCRA rps burst).emission, (newGCRA rps burst).tolerance - (newGCRA rps burst).emission⟩ := by
  have hemission : (newGCRA rps burst).emission = Time.ofFloat64 (float64 (Time.second / rps)) :=
    if_neg (not_le.mpr hr)
  have htolerance :
      (newGCRA rps burst).tolerance = int64 ((newGCRA rps burst).emission * (burst - 1)) :=
    if_neg (not_lt.mpr hb)
  rw [meter, htolerance, hemission, if_neg (not_lt.mpr hb)]

variable (hb : 1 ≤ burst) (he : 0 ≤ (newGCRA rps burst).emission)
  (ho : (newGCRA rps burst).emission * (burst - 1) ≤ Time.maxDuration)
include hb he ho

theorem tolerance_eq : (newGCRA rps burst).tolerance = (newGCRA rps burst).emission * (burst - 1) :=
  newGCRA_tolerance hb (mul_nonneg he (by omega)) ho

theorem spaced_iff (hr : 0 < rps) :
    (meter rps burst).Spaced ts ↔ LeaveRoom (newGCRA rps burst).emission burst ts := by
  rw [meter_eq hr hb, tolerance_eq hb he ho]
  apply forall₄_congr
  intro i j t u
  apply forall₃_congr
  intro hij _ _
  rw [nsmul_eq_mul, Nat.cast_sub hij]
  constructor <;> intro h <;> linarith

theorem spacedFrom_iff : (newGCRA rps burst).meter.SpacedFrom (0 : ℤ) ts ↔
    LateEnough (newGCRA rps burst).emission burst ts := by
  unfold Meter.SpacedFrom LateEnough GcraLimiter.meter
  rw [tolerance_eq hb he ho]
  simp only [WithBot.coe_inj, forall_eq', zero_add, nsmul_eq_mul]
  apply forall₃_congr
  intro j u _
  constructor <;> intro h <;> linarith

theorem matches_of_leaveRoom (hr : 0 < rps) {key : String} {calls : List (String × Offer)}
    (hkey : ∀ o ∈ inputsAt key calls, o.rps = rps ∧ o.burst = burst)
    (hroom : LeaveRoom (newGCRA rps burst).emission burst (timesAt key calls))
    (hlate : LateEnough (newGCRA rps burst).emission burst (timesAt key calls)) :
    Matches rps burst key calls := by
  have hspaced : (meter rps burst).Spaced (timesAt key calls) := (spaced_iff hb he ho hr).mpr hroom
  have hspaced' : (newGCRA rps burst).meter.Spaced (timesAt key calls) := by
    intro i j t u hij hi hj
    have := hspaced i j t u hij hi hj
    rw [meter_eq hr hb] at this
    change t + (j - i) • (newGCRA rps burst).emission ≤ u + (newGCRA rps burst).tolerance
    linarith
  have hstore : ∀ r ∈ replies (meter rps burst).reserve (⊥ : WithBot ℤ) (timesAt key calls),
      r.1 = true :=
    (Meter.admits_all_iff _).mpr ⟨fun a ha => absurd ha (by simp), hspaced⟩
  have hlocal :
      ∀ r ∈ replies (newGCRA rps burst).meter.reserve ((0 : ℤ) : WithBot ℤ) (timesAt key calls),
      r.1 = true :=
    (Meter.admits_all_iff _).mpr ⟨(spacedFrom_iff hb he ho).mpr hlate, hspaced'⟩
  rw [Matches, repliesAt_call hr hkey, replies_reserve hb]
  change (replies _ (⊥ : WithBot ℤ) _).map clip = (replies _ ((0 : ℤ) : WithBot ℤ) _).map clip
  rw [Meter.replies_of_admits_all hstore, Meter.replies_of_admits_all hlocal]

theorem matches_of_no_interval (hr : 0 < rps) {key : String} {calls : List (String × Offer)}
    (hkey : ∀ o ∈ inputsAt key calls, o.rps = rps ∧ o.burst = burst)
    (hzero : (newGCRA rps burst).emission = 0) (hfirst : ∀ t ∈ (timesAt key calls).head?, 0 ≤ t) :
    Matches rps burst key calls := by
  have hmeter : meter rps burst = (newGCRA rps burst).meter := by
    rw [meter_eq hr hb, GcraLimiter.meter, hzero, sub_zero]
  have htolerance : (newGCRA rps burst).meter.tolerance = 0 := by
    change (newGCRA rps burst).tolerance = 0
    rw [tolerance_eq hb he ho, hzero, zero_mul]
  rw [Matches, repliesAt_call hr hkey, replies_reserve hb, hmeter]
  change (replies _ (⊥ : WithBot ℤ) _).map clip = (replies _ ((0 : ℤ) : WithBot ℤ) _).map clip
  cases hts : timesAt key calls with
  | nil => rfl
  | cons t ts =>
    have ht : 0 ≤ t := hfirst t (by rw [hts]; rfl)
    have harrival : Meter.arrival ((0 : ℤ) : WithBot ℤ) t = t :=
      Meter.arrival_of_le (WithBot.coe_le_coe.mpr ht)
    rw [replies_cons, replies_cons,
      Meter.reserve_of_le (by rw [Meter.arrival_bot, htolerance, sub_zero]),
      Meter.reserve_of_le (by rw [harrival, htolerance, sub_zero]), Meter.arrival_bot, harrival]

theorem leaveRoom_of_matches (hr : 0 < rps) {key : String} {calls : List (String × Offer)}
    (hkey : ∀ o ∈ inputsAt key calls, o.rps = rps ∧ o.burst = burst)
    (hpos : 0 < (newGCRA rps burst).emission) (hstart : ∀ t ∈ timesAt key calls, 0 ≤ t)
    (hspan : ∀ t ∈ timesAt key calls, ∀ u ∈ timesAt key calls,
      t + (newGCRA rps burst).emission - u ≤ Time.maxDuration)
    (h : Matches rps burst key calls) :
    LeaveRoom (newGCRA rps burst).emission burst (timesAt key calls) := by
  have hmax : (0 : ℤ) ≤ Time.maxDuration := by decide
  have hemission : (newGCRA rps burst).emission ≤ Time.maxDuration := by
    change (if rps ≤ 0 then 2 ^ 62 - 1 else Time.ofFloat64 (float64 (Time.second / rps))) ≤ _
    rw [if_neg (not_le.mpr hr)]
    exact Time.ofFloat64_le _
  have htolerance : 0 ≤ (newGCRA rps burst).tolerance := by
    rw [tolerance_eq hb he ho]
    exact mul_nonneg he (by omega)
  have hstricter : Meter.Stricter (newGCRA rps burst).meter (meter rps burst) := by
    rw [meter_eq hr hb]
    exact ⟨rfl, sub_lt_self _ hpos⟩
  have hstore : (replies (meter rps burst).reserve (⊥ : WithBot ℤ) (timesAt key calls)).map clip =
      replies (meter rps burst).reserve (⊥ : WithBot ℤ) (timesAt key calls) := by
    refine map_clip Meter.wait_nonneg (Meter.wait_le hmax ?_ (fun a ha => absurd ha (by simp)) ?_)
    · rw [meter_eq hr hb]
      dsimp only
      omega
    · rw [meter_eq hr hb]
      exact hspan
  have hlocal : (replies (newGCRA rps burst).meter.reserve (⊥ : WithBot ℤ) (timesAt key calls)).map
      clip =
      replies (newGCRA rps burst).meter.reserve (⊥ : WithBot ℤ) (timesAt key calls) :=
    map_clip Meter.wait_nonneg
      (Meter.wait_le hmax (by change 0 ≤ _ + (newGCRA rps burst).tolerance; omega)
      (fun a ha => absurd ha (by simp)) hspan)
  have hzero : replies (newGCRA rps burst).meter.reserve ((0 : ℤ) : WithBot ℤ) (timesAt key calls) =
      replies (newGCRA rps burst).meter.reserve (⊥ : WithBot ℤ) (timesAt key calls) := by
    rw [← Meter.replies_sup (s := ⊥) hstart, bot_sup_eq]
  rw [Matches, repliesAt_call hr hkey, replies_reserve hb] at h
  change (replies _ (⊥ : WithBot ℤ) _).map clip = (replies _ ((0 : ℤ) : WithBot ℤ) _).map clip at h
  rw [hzero, hstore, hlocal, hstricter.replies_eq_iff, Meter.admits_all_iff] at h
  exact (spaced_iff hb he ho hr).mp h.2

end Matches

/-- The store matches the local limiter, from the zero instant on, exactly if the rate leaves no
interval between calls or the calls leave room for one more. -/
theorem memStore_matches_iff {rps : ℚ} {burst : ℤ} (hr : 0 < rps) (hb : 1 ≤ burst)
    (he : 0 ≤ (newGCRA rps burst).emission)
    (ho : (newGCRA rps burst).emission * (burst - 1) ≤ Time.maxDuration) (key : String)
    (calls : List (String × Offer)) (hkey : ∀ o ∈ inputsAt key calls, o.rps = rps ∧ o.burst = burst) :
    ((∀ t ∈ timesAt key calls, 0 ≤ t) →
      (∀ t ∈ timesAt key calls, ∀ u ∈ timesAt key calls,
        t + (newGCRA rps burst).emission - u ≤ Time.maxDuration) →
      (Matches rps burst key calls ↔ (newGCRA rps burst).emission = 0 ∨
        LeaveRoom (newGCRA rps burst).emission burst (timesAt key calls))) ∧
    ((newGCRA rps burst).emission = 0 ∧ (∀ t ∈ (timesAt key calls).head?, 0 ≤ t) ∨
        LeaveRoom (newGCRA rps burst).emission burst (timesAt key calls) ∧
          LateEnough (newGCRA rps burst).emission burst (timesAt key calls) →
      Matches rps burst key calls) := by
  refine ⟨fun hstart hspan => ⟨fun h => ?_, ?_⟩, ?_⟩
  · rcases he.eq_or_lt with hzero | hpos
    · exact .inl hzero.symm
    · exact .inr (leaveRoom_of_matches hb he ho hr hkey hpos hstart hspan h)
  · rintro (hzero | hroom)
    · exact matches_of_no_interval hb he ho hr hkey hzero fun t ht =>
        hstart t (List.mem_of_mem_head? ht)
    · apply matches_of_leaveRoom hb he ho hr hkey hroom
      intro j u hj
      -- The first call is at zero or later, and every other follows it with room to spare.
      obtain ⟨t, hfirst⟩ : ∃ t, (timesAt key calls)[0]? = some t := by
        cases hts : timesAt key calls with
        | nil => simp [hts] at hj
        | cons t ts => exact ⟨t, rfl⟩
      have ht := hstart t (List.mem_of_getElem? hfirst)
      have hspaced := hroom 0 j t u (Nat.zero_le j) hfirst hj
      push_cast at hspaced
      linarith
  · rintro (⟨hzero, hfirst⟩ | ⟨hroom, hlate⟩)
    · exact matches_of_no_interval hb he ho hr hkey hzero hfirst
    · exact matches_of_leaveRoom hb he ho hr hkey hroom hlate

/-- A burst of three admits two calls at once, with a call on another key between them; a
third call is told apart. -/
theorem memStore_matches_two :
    let calls : List (String × Offer) := [("k", ⟨10, 3, 7⟩), ("other", ⟨1, 1, 7⟩), ("k", ⟨10, 3, 7⟩)]
    let more : List (String × Offer) := calls ++ [("k", ⟨10, 3, 7⟩)]
    Matches 10 3 "k" calls ∧ ¬ Matches 10 3 "k" more := by
  intro calls more
  have hemission : (newGCRA 10 3).emission = 100000000 := by decide +kernel
  have he : 0 ≤ (newGCRA 10 3).emission := by rw [hemission]; decide
  have ho : (newGCRA 10 3).emission * (3 - 1) ≤ Time.maxDuration := by rw [hemission]; decide
  have hspan : ∀ t ∈ [(7 : ℤ), 7, 7], ∀ u ∈ [(7 : ℤ), 7, 7],
      t + (newGCRA 10 3).emission - u ≤ Time.maxDuration := by
    rw [hemission]
    decide
  constructor
  · refine (memStore_matches_iff (by decide) (by decide) he ho "k" calls (by decide)).2 (.inr ⟨?_, ?_⟩)
    · intro i j t u hij hi hj
      have ht : t ∈ [(7 : ℤ), 7] := List.mem_of_getElem? hi
      have hu : u ∈ [(7 : ℤ), 7] := List.mem_of_getElem? hj
      have hj' : j < 2 := (List.getElem?_eq_some_iff.mp hj).1
      simp only [List.mem_cons, List.not_mem_nil, or_false, or_self] at ht hu
      rw [hemission]
      omega
    · intro j u hj
      have hu : u ∈ [(7 : ℤ), 7] := List.mem_of_getElem? hj
      have hj' : j < 2 := (List.getElem?_eq_some_iff.mp hj).1
      simp only [List.mem_cons, List.not_mem_nil, or_false, or_self] at hu
      rw [hemission]
      omega
  · intro hmatches
    rcases ((memStore_matches_iff (by decide) (by decide) he ho "k" more (by decide)).1 (by decide)
      hspan).mp hmatches with hzero | hroom
    · rw [hemission] at hzero
      cases hzero
    · have := hroom 0 2 7 7 (by decide) rfl rfl
      rw [hemission] at this
      revert this
      decide

/-- At a burst of one the store refuses a call that the local limiter admits, and every other. -/
theorem memStore_refuses_burst_of_one :
    0 ≤ (newGCRA 1 1).emission ∧ (newGCRA 1 1).emission * (1 - 1) ≤ Time.maxDuration ∧
      replies call {} [("k", ⟨1, 1, Time.unixEpoch⟩)] = [(false, 1000000000)] ∧
      replies GcraLimiter.reserve (newGCRA 1 1) [Time.unixEpoch] = [(true, 0)] ∧
      ¬ Matches 1 1 "k" [("k", ⟨1, 1, Time.unixEpoch⟩)] := by
  unfold Matches
  decide +kernel

end MemStore
end ReverseProxyLb.Limiter
