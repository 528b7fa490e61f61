import ReverseProxyLb.Base.Number

/-! `golang.org/x/time/rate` in exact numbers: neither the tokens nor the spans between
instants are rounded, so a reservation cancelled at once gives back just what it took. -/
namespace ReverseProxyLb.Limiter

/-- What is used of `golang.org/x/time/rate`. -/
structure RatePackage where
  Bucket : Type
  Reservation : Type
  newLimiter : ℚ → ℤ → Bucket
  reserveN : Bucket → ℤ → ℤ → Reservation × Bucket
  ok : Reservation → Bool
  delayFrom : Reservation → ℤ → ℤ
  cancelAt : Reservation → ℤ → Bucket → Bucket

/-- `tokenBucketLimiter.reserve`. -/
def tokenBucketReserve (P : RatePackage) (l : P.Bucket) (now : ℤ) : (Bool × ℤ) × P.Bucket :=
  let (r, l) := P.reserveN l now 1
  if !P.ok r then ((false, 0), l)
  else
    let delay := P.delayFrom r now
    if 0 < delay then ((false, delay), P.cancelAt r now l)
    else ((true, 0), l)

/-- `rate.Limiter`. -/
structure TokenBucket where
  limit : ℚ
  burst : ℤ
  tokens : ℚ
  last : ℤ := 0
  lastEvent : ℤ := 0

namespace TokenBucket

/-- `rate.Reservation`. -/
structure Reservation where
  ok : Bool
  limit : ℚ
  tokens : ℤ
  timeToAct : ℤ

/-- `rate.Inf`, the greatest `float64`. -/
@[irreducible] def inf : ℚ := 2 ^ 1024 - 2 ^ 971

def infDuration : ℤ := Time.maxDuration

def durationFromTokens (limit tokens : ℚ) : ℤ :=
  if limit ≤ 0 then infDuration
  else
    let duration := tokens / limit * Time.second
    min (duration.num.tdiv duration.den) infDuration

def tokensFromDuration (limit : ℚ) (d : ℤ) : ℚ := if limit ≤ 0 then 0 else d / Time.second * limit

def advance (l : TokenBucket) (t : ℤ) : ℚ :=
  min (l.tokens + tokensFromDuration l.limit (t - min l.last t)) l.burst

def reserveN (l : TokenBucket) (t n : ℤ) : Reservation × TokenBucket :=
  if l.limit = inf then ({ ok := true, limit := l.limit, tokens := n, timeToAct := t }, l)
  else
    let tokens := l.advance t - n
    let waitDuration := if tokens < 0 then durationFromTokens l.limit (-tokens) else 0
    if n ≤ l.burst then
      ({ ok := true, limit := l.limit, tokens := n, timeToAct := t + waitDuration },
        { l with last := t, tokens := tokens, lastEvent := t + waitDuration })
    else ({ ok := false, limit := l.limit, tokens := 0, timeToAct := 0 }, l)

def delayFrom (r : Reservation) (t : ℤ) : ℤ := if r.ok then max 0 (r.timeToAct - t) else infDuration

def cancelAt (r : Reservation) (t : ℤ) (l : TokenBucket) : TokenBucket :=
  if !r.ok ∨ l.limit = inf ∨ r.tokens = 0 ∨ r.timeToAct < t then l
  else
    -- What was reserved after it is not given back.
    let restoreTokens := r.tokens - tokensFromDuration r.limit (l.lastEvent - r.timeToAct)
    if restoreTokens ≤ 0 then l
    else
      let prevEvent := r.timeToAct + durationFromTokens r.limit (-r.tokens)
      { l with
        last := t
        tokens := min (l.advance t + restoreTokens) l.burst
        lastEvent := if r.timeToAct = l.lastEvent ∧ t ≤ prevEvent then prevEvent else l.lastEvent }

end TokenBucket

def RatePackage.exact : RatePackage where
  Bucket := TokenBucket
  Reservation := TokenBucket.Reservation
  newLimiter limit burst := { limit := limit, burst := burst, tokens := burst }
  reserveN := TokenBucket.reserveN
  ok := TokenBucket.Reservation.ok
  delayFrom := TokenBucket.delayFrom
  cancelAt := TokenBucket.cancelAt

namespace TokenBucket
variable {l l' : TokenBucket} {t u now : ℤ}

def awaited (l : TokenBucket) (now : ℤ) : ℤ :=
  if l.advance now - 1 < 0 then durationFromTokens l.limit (-(l.advance now - 1)) else 0

theorem advance_le (l : TokenBucket) (t : ℤ) : l.advance t ≤ l.burst := min_le_right ..

theorem advance_self {tokens : ℚ} (h : tokens ≤ l.burst) (lastEvent : ℤ) :
    TokenBucket.advance { l with last := now, tokens := tokens, lastEvent := lastEvent } now =
      tokens := by
  simp [advance, tokensFromDuration, h]

theorem reserve_eq (l : TokenBucket) (now : ℤ) : ∃ lastEvent, tokenBucketReserve .exact l now =
    if l.limit = inf then ((true, 0), l)
    else if l.burst < 1 then ((false, 0), l)
    else if 0 < l.awaited now then
      ((false, l.awaited now), { l with last := now, tokens := l.advance now, lastEvent := lastEvent })
    else ((true, 0), { l with last := now, tokens := l.advance now - 1, lastEvent := lastEvent }) := by
  by_cases hinf : l.limit = inf
  · have hreserve :
        l.reserveN now 1 = ({ ok := true, limit := l.limit, tokens := 1, timeToAct := now }, l) :=
      if_pos hinf
    simp [tokenBucketReserve, RatePackage.exact, hreserve, delayFrom, hinf]
  by_cases hburst : l.burst < 1
  · have hreserve :
        l.reserveN now 1 = ({ ok := false, limit := l.limit, tokens := 0, timeToAct := 0 }, l) := by
      simp [reserveN, hinf, not_le.mpr hburst]
    simp [tokenBucketReserve, RatePackage.exact, hreserve, hinf, hburst]
  have hreserve : l.reserveN now 1 =
      ({ ok := true, limit := l.limit, tokens := 1, timeToAct := now + l.awaited now },
        { l with last := now, tokens := l.advance now - 1, lastEvent := now + l.awaited now }) := by
    simp [reserveN, awaited, hinf, not_lt.mp hburst]
  by_cases hwait : 0 < l.awaited now
  · have hone : l.advance now - 1 ≤ l.burst := (sub_le_self _ zero_le_one).trans (l.advance_le now)
    have hback : ¬ (1 : ℚ) ≤ 0 := by norm_num
    simp [tokenBucketReserve, RatePackage.exact, hreserve, delayFrom, cancelAt, hinf, hburst, hwait,
      hwait.le,
      hwait.not_gt, advance_self hone, tokensFromDuration, l.advance_le now, hback]
  · simp [tokenBucketReserve, RatePackage.exact, hreserve, delayFrom, hinf, hburst, hwait]

/-- Buckets that have the same tokens from some time on. -/
structure Alike (t : ℤ) (l l' : TokenBucket) : Prop where
  limit : l.limit = l'.limit
  burst : l.burst = l'.burst
  last : l.last ≤ t
  last' : l'.last ≤ t
  advance : ∀ u, t ≤ u → l.advance u = l'.advance u

theorem Alike.refl (h : l.last ≤ t) : Alike t l l := ⟨rfl, rfl, h, h, fun _ _ => rfl⟩

theorem Alike.later (h : Alike t l l') (hle : t ≤ now) : Alike now l l' :=
  ⟨h.limit, h.burst, h.last.trans hle, h.last'.trans hle, fun u hu => h.advance u (hle.trans hu)⟩

theorem Alike.trans {l'' : TokenBucket} (h : Alike t l l') (h' : Alike t l' l'') : Alike t l l'' :=
  ⟨h.limit.trans h'.limit, h.burst.trans h'.burst, h.last, h'.last',
    fun u hu => (h.advance u hu).trans (h'.advance u hu)⟩

theorem alike_update (l : TokenBucket) (now : ℤ) (tokens : ℚ) (lastEvent lastEvent' : ℤ) :
    Alike now { l with last := now, tokens := tokens, lastEvent := lastEvent }
      { l with last := now, tokens := tokens, lastEvent := lastEvent' } :=
  ⟨rfl, rfl, le_rfl, le_rfl, fun _ _ => rfl⟩

theorem Alike.reserve (h : Alike t l l') (hle : t ≤ now) :
    (tokenBucketReserve .exact l now).1 = (tokenBucketReserve .exact l' now).1 ∧
      Alike now (tokenBucketReserve .exact l now).2 (tokenBucketReserve .exact l' now).2 := by
  have hadvance : l.advance now = l'.advance now := h.advance now hle
  have hawaited : l.awaited now = l'.awaited now := by rw [awaited, awaited, hadvance, h.limit]
  obtain ⟨ev, he⟩ := reserve_eq l now
  obtain ⟨ev', he'⟩ := reserve_eq l' now
  rw [he, he', h.limit, h.burst, hawaited, hadvance]
  split_ifs
  · exact ⟨rfl, h.later hle⟩
  · exact ⟨rfl, h.later hle⟩
  · exact ⟨rfl, alike_update l' now _ ev ev'⟩
  · exact ⟨rfl, alike_update l' now _ ev ev'⟩

end TokenBucket
end ReverseProxyLb.Limiter
