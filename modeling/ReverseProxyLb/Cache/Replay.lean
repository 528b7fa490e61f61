import ReverseProxyLb.Cache.Middleware

/-! A response is judged by what was sent; the cache judges it by what its capturing writer
has kept, and reads the first line of each header field. The two agree on responses that are
legible. -/
namespace ReverseProxyLb.Cache
open Text Lib

/-- What a handler does with its `http.ResponseWriter`. -/
inductive WriterOp where
  | header (name : String) (values : List String)
  | writeHeader (code : ℤ)
  | write (b : String)
  | flush
  | hijack

/-- The writer below the capturing one. `sent` is the status and the header that went out. -/
structure Wire where
  sent : Option (ℤ × Header) := none
  body : String := ""
  flushed : Bool := false
  hijacked : Bool := false

def Wire.writeHeader (w : Wire) (code : ℤ) (h : Header) : Wire :=
  if w.sent.isSome then w else { w with sent := some (code, h) }

@[simp] theorem Wire.writeHeader_body (w : Wire) (code : ℤ) (h : Header) :
    (w.writeHeader code h).body = w.body := by
  unfold writeHeader
  split_ifs <;> rfl

@[simp] theorem Wire.writeHeader_flushed (w : Wire) (code : ℤ) (h : Header) :
    (w.writeHeader code h).flushed = w.flushed := by
  unfold writeHeader
  split_ifs <;> rfl

@[simp] theorem Wire.writeHeader_hijacked (w : Wire) (code : ℤ) (h : Header) :
    (w.writeHeader code h).hijacked = w.hijacked := by
  unfold writeHeader
  split_ifs <;> rfl

/-- `cacheCapture` while the handler runs. -/
structure CacheCapture extends Capture where
  wroteHeader : Bool := false
  wire : Wire := {}

namespace CacheCapture

def writeHeader (c : CacheCapture) (code : ℤ) : CacheCapture :=
  if c.wroteHeader then c
  else { c with wroteHeader := true, status := code, wire := c.wire.writeHeader code c.header }

/-- What `Write` keeps of the body. -/
def buffer (maxBody : ℤ) (c : CacheCapture) (b : String) : CacheCapture :=
  if !c.overflow && !c.streamed then
    if maxBody < c.body.utf8ByteSize + b.utf8ByteSize then { c with overflow := true, body := "" }
    else { c with body := c.body ++ b }
  else c

def write (maxBody : ℤ) (c : CacheCapture) (b : String) : CacheCapture :=
  let c := if !c.wroteHeader then c.writeHeader 200 else c
  let c := c.buffer maxBody b
  { c with wire := { c.wire with body := c.wire.body ++ b } }

/-- `Flush`; the writer below sends the header if it has not been sent. -/
def flush (c : CacheCapture) : CacheCapture :=
  { c with
    streamed := true
    body := ""
    wire := { (c.wire.writeHeader 200 c.header) with flushed := true } }

def hijack (c : CacheCapture) : CacheCapture :=
  { c with hijacked := true, wire := { c.wire with hijacked := true } }

def op (maxBody : ℤ) (c : CacheCapture) : WriterOp → CacheCapture
  | .header name values =>
    { c with header := fun k => if k = canonicalHeaderKey name then values else c.header k }
  | .writeHeader code => c.writeHeader code
  | .write b => c.write maxBody b
  | .flush => c.flush
  | .hijack => c.hijack

def handle (maxBody : ℤ) (ops : List WriterOp) : CacheCapture := ops.foldl (op maxBody) {}

def sentHeader (c : CacheCapture) : Header := c.wire.sent.elim c.header (·.2)

def sentStatus (c : CacheCapture) : ℤ := c.wire.sent.elim 200 (·.1)

/-- As long as nothing is flushed, the capture knows what the writer below was told. -/
structure Tracks (maxBody : ℤ) (c : CacheCapture) : Prop where
  flushed : c.streamed = c.wire.flushed
  hijacked : c.hijacked = c.wire.hijacked
  status : c.streamed = false →
    c.wroteHeader = c.wire.sent.isSome ∧ c.status = c.sentStatus
  body : c.streamed = false → c.overflow = false →
    c.body = c.wire.body ∧ (c.body.utf8ByteSize : ℤ) ≤ maxBody

variable {maxBody : ℤ} {c : CacheCapture}

theorem Tracks.writeHeader (h : c.Tracks maxBody) (code : ℤ) :
    (c.writeHeader code).Tracks maxBody := by
  unfold CacheCapture.writeHeader
  split_ifs with hw
  · exact h
  · have hsent : c.streamed = false → c.wire.sent = none := by
      intro hs
      rw [← Option.isNone_iff_eq_none, ← Option.not_isSome, ← (h.status hs).1]
      simpa using hw
    constructor
    · change c.streamed = (c.wire.writeHeader code c.header).flushed
      rw [Wire.writeHeader_flushed, h.flushed]
    · change c.hijacked = (c.wire.writeHeader code c.header).hijacked
      rw [Wire.writeHeader_hijacked, h.hijacked]
    · intro hs
      simp [Wire.writeHeader, hsent hs, sentStatus]
    · intro hs ho
      change c.body = (c.wire.writeHeader code c.header).body ∧ _
      rw [Wire.writeHeader_body]
      exact h.body hs ho

theorem Tracks.write (h : c.Tracks maxBody) (b : String) : (c.write maxBody b).Tracks maxBody := by
  have hc : (if !c.wroteHeader then c.writeHeader 200 else c).Tracks maxBody := by
    split_ifs
    · exact h.writeHeader 200
    · exact h
  unfold CacheCapture.write buffer
  dsimp only
  generalize (if !c.wroteHeader then c.writeHeader 200 else c) = d at hc
  split_ifs with hkeep hbig
  · exact ⟨hc.flushed, hc.hijacked, hc.status, fun _ ho => absurd ho (by simp)⟩
  · refine ⟨hc.flushed, hc.hijacked, hc.status, fun hs ho => ?_⟩
    dsimp only
    rw [(hc.body hs ho).1, String.utf8ByteSize_append]
    rw [(hc.body hs ho).1] at hbig
    refine ⟨rfl, ?_⟩
    push_cast
    omega
  · refine ⟨hc.flushed, hc.hijacked, hc.status, fun hs ho => ?_⟩
    simp only at hs ho
    simp [hs, ho] at hkeep

theorem Tracks.op (h : c.Tracks maxBody) (o : WriterOp) : (c.op maxBody o).Tracks maxBody := by
  cases o with
  | header name values => exact ⟨h.flushed, h.hijacked, h.status, h.body⟩
  | writeHeader code => exact h.writeHeader code
  | write b => exact h.write b
  | flush =>
    refine ⟨rfl, ?_, fun hs => absurd hs (by simp [CacheCapture.op, flush]),
      fun hs => absurd hs (by simp [CacheCapture.op, flush])⟩
    change c.hijacked = (c.wire.writeHeader 200 c.header).hijacked
    rw [Wire.writeHeader_hijacked, h.hijacked]
  | hijack => exact ⟨h.flushed, rfl, h.status, h.body⟩

theorem tracks_handle (hmax : 0 ≤ maxBody) (ops : List WriterOp) :
    (handle maxBody ops).Tracks maxBody := by
  have hinit : ({} : CacheCapture).Tracks maxBody :=
    ⟨rfl, rfl, fun _ => ⟨rfl, rfl⟩, fun _ _ => ⟨rfl, hmax⟩⟩
  unfold handle
  induction ops using List.reverseRecOn with
  | nil => exact hinit
  | append_singleton ops o ih =>
    rw [List.foldl_append]
    exact ih.op o

end CacheCapture

def directiveName (piece : String) : String :=
  trimSpace (toLower (String.ofList (piece.toList.takeWhile (· ≠ '='))))

/-- The `Cache-Control` lines taken together contain the directive. -/
def HasDirective (h : Header) (name : String) : Prop :=
  ∃ line ∈ h.values "Cache-Control", ∃ piece ∈ split line ',', directiveName piece = name

instance (h : Header) (name : String) : Decidable (HasDirective h name) :=
  inferInstanceAs (Decidable (∃ line ∈ h.values "Cache-Control", ∃ piece ∈ split line ',', _))

def members (line : String) : List String := (split line ',').map trimSpace

def forbidding : List String := ["no-store", "private", "no-cache"]

def refusing : List String := ["no-store", "no-cache"]

def Uncacheable (maxBody : ℤ) (c : CacheCapture) : Prop :=
  c.sentStatus ≠ 200 ∨ c.sentHeader.values "Set-Cookie" ≠ [] ∨
    (∃ line ∈ c.sentHeader.values "Vary", "*" ∈ members line) ∨
    maxBody < c.wire.body.utf8ByteSize ∨ c.wire.flushed ∨ c.wire.hijacked ∨
    ∃ name ∈ forbidding, HasDirective c.sentHeader name

def Stated (names : List String) (h : Header) : Prop :=
  ∀ name ∈ names, HasDirective h name → name ∈ directives (h.get "Cache-Control")

instance (names : List String) (h : Header) : Decidable (Stated names h) :=
  inferInstanceAs (Decidable (∀ name ∈ names, _ → name ∈ directives (h.get "Cache-Control")))

/-- The first line of a field tells what the cache needs to know of all, and the fields were not
changed after they were sent. -/
structure Legible (c : CacheCapture) : Prop where
  unchanged : ∀ name ∈ ["Cache-Control", "Set-Cookie", "Vary"],
    c.header.values name = c.sentHeader.values name
  stated : Stated forbidding c.header
  cookie : c.header.values "Set-Cookie" ≠ [] → c.header.get "Set-Cookie" ≠ ""
  vary : (∃ line ∈ c.header.values "Vary", "*" ∈ members line) →
    "*" ∈ members (c.header.get "Vary")

theorem readDirective_keeps (acc : CacheControl × ℤ × ℤ) (d : String) :
    (acc.1.noStore → (readDirective acc d).1.noStore) ∧
      (acc.1.noCache → (readDirective acc d).1.noCache) ∧
      (acc.1.isPrivate → (readDirective acc d).1.isPrivate) := by
  unfold readDirective
  dsimp only
  split_ifs
  · simp
  · simp
  · simp
  · simp
  · split
    · simp
    · split
      · simp
      · split
        · split
          · split_ifs <;> simp
          · simp
        · simp

theorem foldl_readDirective {P : CacheControl → Prop} {d : String} {ds : List String}
    (hset : ∀ acc, P (readDirective acc d).1)
    (hkeep : ∀ acc d', P acc.1 → P (readDirective acc d').1)
    (hd : d ∈ ds) (acc : CacheControl × ℤ × ℤ) : P (ds.foldl readDirective acc).1 := by
  have hrest : ∀ (ds : List String) acc, P acc.1 → P (ds.foldl readDirective acc).1 := by
    intro ds
    induction ds with
    | nil => exact fun _ h => h
    | cons d' ds ih => exact fun acc h => ih _ (hkeep acc d' h)
  induction ds generalizing acc with
  | nil => cases hd
  | cons d' ds ih =>
    rcases List.mem_cons.mp hd with rfl | hd
    · exact hrest ds _ (hset acc)
    · exact ih hd _

theorem parseCacheControl_of_mem {P : CacheControl → Prop} {v d : String}
    (hset : ∀ acc, P (readDirective acc d).1)
    (hkeep : ∀ acc d', P acc.1 → P (readDirective acc d').1)
    (hage : ∀ cc age, P cc → P { cc with maxAge := age, maxAgeSet := true })
    (hd : d ∈ directives v) (hne : d ≠ "") : P (parseCacheControl v) := by
  have hv : v ≠ "" := by
    rintro rfl
    rw [show directives "" = [""] by decide +kernel] at hd
    exact hne (List.mem_singleton.mp hd)
  have hfold := foldl_readDirective hset hkeep hd ({}, -1, -1)
  unfold parseCacheControl
  rw [if_neg hv]
  dsimp only
  split_ifs
  · exact hage _ _ hfold
  · exact hage _ _ hfold
  · exact hfold

theorem parseCacheControl_noStore {v : String} (h : "no-store" ∈ directives v) :
    (parseCacheControl v).noStore :=
  parseCacheControl_of_mem (P := fun cc => cc.noStore = true) (fun _ => rfl)
    (fun acc d => (readDirective_keeps acc d).1) (fun _ _ h => h) h (by decide)

theorem parseCacheControl_noCache {v : String} (h : "no-cache" ∈ directives v) :
    (parseCacheControl v).noCache :=
  parseCacheControl_of_mem (P := fun cc => cc.noCache = true) (fun _ => rfl)
    (fun acc d => (readDirective_keeps acc d).2.1) (fun _ _ h => h) h (by decide)

theorem parseCacheControl_isPrivate {v : String} (h : "private" ∈ directives v) :
    (parseCacheControl v).isPrivate :=
  parseCacheControl_of_mem (P := fun cc => cc.isPrivate = true) (fun _ => rfl)
    (fun acc d => (readDirective_keeps acc d).2.2) (fun _ _ h => h) h (by decide)

theorem star_mem_parseVary {v : String} (h : "*" ∈ members v) : "*" ∈ parseVary v := by
  have hv : v ≠ "" := by
    rintro rfl
    exact absurd h (by decide +kernel)
  obtain ⟨piece, hpiece, htrim⟩ := List.mem_map.mp h
  unfold parseVary
  rw [if_neg hv, List.mem_filter]
  refine ⟨List.mem_map.mpr ⟨piece, hpiece, ?_⟩, by decide⟩
  rw [htrim]
  decide +kernel

theorem not_mem_of_parseCacheControl {v : String}
    (h : ¬ ((parseCacheControl v).noStore || (parseCacheControl v).isPrivate ||
      (parseCacheControl v).noCache) = true) :
    ∀ name ∈ forbidding, name ∉ directives v := by
  intro name hname hmem
  apply h
  rcases (by simpa [forbidding] using hname :
    name = "no-store" ∨ name = "private" ∨ name = "no-cache") with rfl | rfl | rfl
  · rw [parseCacheControl_noStore hmem, Bool.true_or, Bool.true_or]
  · rw [parseCacheControl_isPrivate hmem, Bool.or_true, Bool.true_or]
  · rw [parseCacheControl_noCache hmem, Bool.or_true]

theorem entryFromCapture_checks {defaultTTL : ℤ} {r : Request} {baseKey : String} {cw : Capture}
    {now : ℤ} {e : CacheEntry} (h : entryFromCapture defaultTTL r baseKey cw now = some e) :
    (cw.hijacked = false ∧ cw.streamed = false ∧ cw.overflow = false) ∧ cw.status = 200 ∧
      (∀ name ∈ forbidding, name ∉ directives (cw.header.get "Cache-Control")) ∧
      cw.header.get "Set-Cookie" = "" ∧ "*" ∉ parseVary (cw.header.get "Vary") ∧
      e.status = cw.status ∧ e.body = cw.body := by
  unfold entryFromCapture at h
  simp only [Option.ite_none_left_eq_some] at h
  obtain ⟨hplain, hstatus, hdir, hcookie, -, hvary, -, he⟩ := h
  cases he
  refine ⟨?_, not_not.mp hstatus, not_mem_of_parseCacheControl hdir, not_not.mp hcookie, ?_, rfl, rfl⟩
  · simpa [and_assoc] using hplain
  · simpa using hvary

theorem HasDirective.congr {h h' : Header} {name : String}
    (hv : h.values "Cache-Control" = h'.values "Cache-Control") (hd : HasDirective h name) :
    HasDirective h' name := by
  unfold HasDirective at hd ⊢
  rwa [← hv]

theorem not_uncacheable {maxBody defaultTTL now : ℤ} {r : Request} {baseKey : String}
    {e : CacheEntry} {c : CacheCapture} (ht : c.Tracks maxBody) (hl : Legible c)
    (h : entryFromCapture defaultTTL r baseKey c.toCapture now = some e) :
    ¬ Uncacheable maxBody c ∧ e.status = c.sentStatus ∧ e.body = c.wire.body := by
  obtain ⟨⟨hhij, hstr, hover⟩, hstatus, hdir, hcookie, hvary, hes, heb⟩ := entryFromCapture_checks h
  obtain ⟨hbody, hsize⟩ := ht.body hstr hover
  have hsent := (ht.status hstr).2
  refine ⟨?_, by rw [hes, hsent], by rw [heb, hbody]⟩
  rintro (hs | hs | hs | hs | hs | hs | ⟨name, hname, hs⟩)
  · rw [← hsent] at hs
    exact hs hstatus
  · rw [← hl.unchanged "Set-Cookie" (by simp)] at hs
    exact hl.cookie hs hcookie
  · rw [← hl.unchanged "Vary" (by simp)] at hs
    exact hvary (star_mem_parseVary (hl.vary hs))
  · rw [← hbody] at hs
    omega
  · rw [← ht.flushed, hstr] at hs
    cases hs
  · rw [← ht.hijacked, hhij] at hs
    cases hs
  · have hhas := hs.congr (hl.unchanged "Cache-Control" (by simp)).symm
    exact hdir name hname (hl.stated name hname hhas)

/-- `maxBody` of the middleware. -/
def effectiveMaxBody (maxBodyBytes : ℤ) : ℤ := if maxBodyBytes ≤ 0 then 2 ^ 20 else maxBodyBytes

theorem effectiveMaxBody_nonneg (n : ℤ) : 0 ≤ effectiveMaxBody n := by
  unfold effectiveMaxBody
  split_ifs <;> omega

/-- A request arrives, or a handler that is running returns after the given operations,
or panics. -/
inductive Exchange where
  | request (r : Request) (now : ℤ)
  | response (i : ℕ) (ops : List WriterOp) (now : ℤ)
  | failure (i : ℕ)

def Exchange.event (maxBody : ℤ) : Exchange → Event
  | .request r now => .request r now
  | .response i ops now => .response i (CacheCapture.handle maxBody ops).toCapture now
  | .failure i => .failure i

def Exchange.Origin (cfg : CacheConfig) (maxBody : ℤ) (e : CacheEntry) (ops : List WriterOp)
    (now : ℤ) : Prop :=
  ∃ p, entryFromCapture (newCache cfg).defaultTTL p (requestKey p)
    (CacheCapture.handle maxBody ops).toCapture now = some e

theorem Middleware.stored_run {cfg : CacheConfig} {es : List Event} {s : Middleware}
    (hr : exec Middleware.step (Middleware.init cfg) es = some s) {p : Request} {cw : Capture} {t : ℤ}
    (hc : Access.store p cw t ∈ s.calls) : ∃ i, Event.response i cw t ∈ es := by
  induction es using List.reverseRecOn generalizing s with
  | nil =>
    cases hr
    cases hc
  | append_singleton es e ih =>
    rw [exec_append] at hr
    obtain ⟨s₁, hr₁, hstep⟩ := Option.bind_eq_some_iff.mp hr
    rw [exec_cons] at hstep
    obtain ⟨s₂, hs, hs₂⟩ := Option.bind_eq_some_iff.mp hstep
    cases hs₂
    obtain hold | ⟨i, rfl⟩ := Middleware.store_of_step hs hc
    · obtain ⟨i, hi⟩ := ih hr₁ hold
      exact ⟨i, List.mem_append_left _ hi⟩
    · exact ⟨i, List.mem_append_right _ (List.mem_singleton_self _)⟩

theorem Middleware.answered_bypass {s : Middleware} {q : Request} {now : ℤ}
    (h : requestBypassesCache q) : s.answered q now = none := by
  unfold Middleware.answered serve
  by_cases hm : (!s.cache.methods.contains q.method) = true
  · rw [if_pos hm]
    rfl
  · rw [if_neg hm, if_pos h]
    rfl

/-- Where the responses are legible, what is answered from the cache may be replayed, and a
request that states its refusal in its first line is not answered from the cache. -/
theorem uncacheable_never_replayed (cfg : CacheConfig) (maxBodyBytes : ℤ) (es : List Exchange)
    (s : Middleware)
    (hr : exec Middleware.step (Middleware.init cfg)
      (es.map (Exchange.event (effectiveMaxBody maxBodyBytes))) = some s)
    (hl : ∀ i ops t, Exchange.response i ops t ∈ es →
      Legible (CacheCapture.handle (effectiveMaxBody maxBodyBytes) ops))
    (q : Request) (now : ℤ) :
    (∀ e, s.answered q now = some e →
      (∃ i ops t, Exchange.response i ops t ∈ es ∧
        Exchange.Origin cfg (effectiveMaxBody maxBodyBytes) e ops t) ∧
      ∀ i ops t, Exchange.response i ops t ∈ es →
        Exchange.Origin cfg (effectiveMaxBody maxBodyBytes) e ops t →
        let c := CacheCapture.handle (effectiveMaxBody maxBodyBytes) ops
        ¬ Uncacheable (effectiveMaxBody maxBodyBytes) c ∧ e.status = c.sentStatus ∧
          e.body = c.wire.body) ∧
    (Stated refusing q.header → (∃ name ∈ refusing, HasDirective q.header name) →
      s.answered q now = none) := by
  constructor
  · intro e ha
    constructor
    · have hf := Middleware.faithful_run hr
      obtain ⟨hlive, _⟩ := Middleware.answered_live hf ha
      obtain ⟨uses, hrep⟩ := hf
      obtain ⟨p, cw, t, hc, he⟩ := hrep.origin e hlive
      obtain ⟨i, hi⟩ := Middleware.stored_run hr hc
      obtain ⟨x, hx, hevent⟩ := List.mem_map.mp hi
      cases x with
      | request r t' => cases hevent
      | failure j => cases hevent
      | response j ops t' =>
        obtain ⟨rfl, rfl, rfl⟩ := Event.response.inj hevent
        refine ⟨j, ops, t', hx, p, ?_⟩
        rw [← hrep.settings.defaultTTL]
        exact he
    · rintro i ops t hx ⟨p, he⟩
      exact not_uncacheable (CacheCapture.tracks_handle (effectiveMaxBody_nonneg _) ops)
        (hl i ops t hx) he
  · rintro hstated ⟨name, hname, hhas⟩
    apply Middleware.answered_bypass
    have hmem := hstated name hname hhas
    unfold requestBypassesCache
    dsimp only
    rcases (by simpa [refusing] using hname : name = "no-store" ∨ name = "no-cache") with rfl | rfl
    · rw [parseCacheControl_noStore hmem, Bool.true_or]
    · rw [parseCacheControl_noCache hmem, Bool.or_true]

/-- A request for a page, with the given `Cache-Control` lines. -/
def pageRequest (lines : List String) : Request :=
  { method := "GET", host := "shop", requestURI := "/",
    header := Header.ofList [("Cache-Control", lines)] }

/-- The page is requested and answered with the given `Cache-Control` lines. -/
def pageAnswered (lines : List String) : List Exchange :=
  [.request (pageRequest []) 0, .response 0 [.header "Cache-Control" lines, .write "page"] 1]

theorem uncacheable_never_replayed_page :
    ∃ s e, exec Middleware.step (Middleware.init {})
        ((pageAnswered ["Public, Max-Age=60"]).map (Exchange.event (effectiveMaxBody 0))) = some s ∧
      s.answered (pageRequest []) 2 = some e ∧
      ¬ Uncacheable (effectiveMaxBody 0) (CacheCapture.handle (effectiveMaxBody 0)
        [.header "Cache-Control" ["Public, Max-Age=60"], .write "page"]) ∧
      s.answered (pageRequest ["NO-STORE"]) 2 = none := by
  have hlegible : ∀ i ops t, Exchange.response i ops t ∈ pageAnswered ["Public, Max-Age=60"] →
      Legible (CacheCapture.handle (effectiveMaxBody 0) ops) := by
    intro i ops t hx
    obtain ⟨_, rfl, _⟩ := by simpa [pageAnswered] using hx
    exact ⟨by decide +kernel, by decide +kernel, by decide +kernel, by decide +kernel⟩
  have heval : ((exec Middleware.step (Middleware.init {})
      ((pageAnswered ["Public, Max-Age=60"]).map (Exchange.event (effectiveMaxBody 0)))).bind
        fun s => s.answered (pageRequest []) 2).isSome := by decide +kernel
  obtain ⟨e, he⟩ := Option.isSome_iff_exists.mp heval
  obtain ⟨s, hs, ha⟩ := Option.bind_eq_some_iff.mp he
  have h := uncacheable_never_replayed {} 0 _ s hs hlegible
  obtain ⟨⟨i, ops, t, hx, horigin⟩, hall⟩ := (h (pageRequest []) 2).1 e ha
  obtain ⟨_, rfl, _⟩ := by simpa [pageAnswered] using hx
  refine ⟨s, e, hs, ha, (hall i _ t hx horigin).1, ?_⟩
  exact (h (pageRequest ["NO-STORE"]) 2).2 (by decide +kernel) (by decide +kernel)

/-- The page is answered from the cache after the history. -/
def Replayed (es : List Exchange) (q : Request) : Prop :=
  ∃ s e, exec Middleware.step (Middleware.init {}) (es.map (Exchange.event (effectiveMaxBody 0))) =
    some s ∧ s.answered q 2 = some e ∧ e.body = "page"

theorem replayed_of_eval {es : List Exchange} {q : Request}
    (h : (((exec Middleware.step
      (Middleware.init {}) (es.map (Exchange.event (effectiveMaxBody 0)))).bind fun s =>
      s.answered q 2).map CacheEntry.body) = some "page") :
    Replayed es q := by
  obtain ⟨e, he, hbody⟩ := Option.map_eq_some_iff.mp h
  obtain ⟨s, hs, ha⟩ := Option.bind_eq_some_iff.mp he
  exact ⟨s, e, hs, ha, hbody⟩

/-- A response whose second line says `no-store` is replayed, and one whose `private` has an
argument; and a request whose second line says `no-cache` is answered from the cache. -/
theorem uncacheable_replayed :
    (HasDirective (CacheCapture.handle (effectiveMaxBody 0)
        [.header "Cache-Control" ["max-age=60", "no-store"], .write "page"]).sentHeader "no-store" ∧
      Replayed (pageAnswered ["max-age=60", "no-store"]) (pageRequest [])) ∧
    (HasDirective (CacheCapture.handle (effectiveMaxBody 0)
        [.header "Cache-Control" ["private=\"set-cookie\""], .write "page"]).sentHeader "private" ∧
      Replayed (pageAnswered ["private=\"set-cookie\""]) (pageRequest [])) ∧
    HasDirective (pageRequest ["max-age=0", "no-cache"]).header "no-cache" ∧
      Replayed (pageAnswered ["max-age=60"]) (pageRequest ["max-age=0", "no-cache"]) := by
  refine ⟨⟨by decide +kernel, ?_⟩, ⟨by decide +kernel, ?_⟩, by decide +kernel, ?_⟩
  · apply replayed_of_eval
    decide +kernel
  · apply replayed_of_eval
    decide +kernel
  · apply replayed_of_eval
    decide +kernel

end ReverseProxyLb.Cache
