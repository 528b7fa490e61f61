import ReverseProxyLb.Cache.Middleware
import ReverseProxyLb.Lib.Delimited

/-! An entry is found by a text made of method, host, URI and the header values it varies on. The
source escapes nothing, so the fields can be read back only under the conditions below. -/
namespace ReverseProxyLb.Cache
open Text Lib

def KeyPlain (r : Request) : Prop :=
  ' ' ∉ r.method.toList ∧ ' ' ∉ r.keyHost.toList ∧ ' ' ∉ r.requestURI.toList

/-- At most one field line for each name, which is neither empty nor contains the character that
ends a value in the key. -/
def Renderable (r : Request) (names : List String) : Prop :=
  ∀ n ∈ names, (r.header.values n).length ≤ 1 ∧
    ∀ v ∈ r.header.values n, v ≠ "" ∧ ';' ∉ v.toList

instance decidableKeyPlain (r : Request) : Decidable (KeyPlain r) :=
  inferInstanceAs (Decidable (_ ∧ _ ∧ _))

instance decidableRenderable (r : Request) (names : List String) :
    Decidable (Renderable r names) :=
  inferInstanceAs (Decidable (∀ n ∈ names, _ ∧ _))

theorem buildVaryKey_separated (names : List String) (r : Request) :
    Separated ' ' (buildVaryKey names r).toList := by
  unfold buildVaryKey
  split
  · exact Or.inl rfl
  · rw [String.toList_append]
    exact separated_cons ' ' _

theorem requestKey_inj {p q : Request} {v w : String} (hp : KeyPlain p) (hq : KeyPlain q)
    (hv : Separated ' ' v.toList) (hw : Separated ' ' w.toList)
    (h : requestKey p ++ v = requestKey q ++ w) :
    p.method = q.method ∧ p.keyHost = q.keyHost ∧ p.requestURI = q.requestURI ∧ v = w := by
  have hl := congrArg String.toList h
  have hblank : (" " : String).toList = [' '] := rfl
  simp only [requestKey, String.toList_append, hblank, List.append_assoc,
    List.singleton_append] at hl
  obtain ⟨hm, hl⟩ := eq_of_fields_eq hp.1 hq.1 (separated_cons ..) (separated_cons ..) hl
  obtain ⟨hh, hl⟩ := eq_of_fields_eq hp.2.1 hq.2.1 (separated_cons ..) (separated_cons ..)
    (List.cons.inj hl).2
  obtain ⟨hu, hl⟩ := eq_of_fields_eq hp.2.2 hq.2.2 hv hw (List.cons.inj hl).2
  exact ⟨String.toList_inj.mp hm, String.toList_inj.mp hh, String.toList_inj.mp hu,
    String.toList_inj.mp hl⟩

theorem eq_nil_or_singleton {values : List String} (h : values.length ≤ 1) :
    values = [] ∨ ∃ v, values = [v] := by
  match values, h with
  | [], _ => exact Or.inl rfl
  | [v], _ => exact Or.inr ⟨v, rfl⟩

theorem values_of_get {p q : Request} {n : String} {names : List String} (hn : n ∈ names)
    (hp : Renderable p names) (hq : Renderable q names)
    (h : p.header.get n = q.header.get n) : p.header.values n = q.header.values n := by
  obtain ⟨hpl, hpv⟩ := hp n hn
  obtain ⟨hql, hqv⟩ := hq n hn
  unfold Header.get at h
  rcases eq_nil_or_singleton hpl with hp' | ⟨v, hp'⟩ <;>
    rcases eq_nil_or_singleton hql with hq' | ⟨w, hq'⟩ <;>
    rw [hp', hq'] at h ⊢
  · exact absurd h.symm (hqv w (by simp [hq'])).1
  · exact absurd h (hpv v (by simp [hp'])).1
  · exact congrArg (fun x => [x]) h

theorem get_noSemicolon {r : Request} {n : String} {names : List String} (hn : n ∈ names)
    (hr : Renderable r names) : ';' ∉ (r.header.get n).toList := by
  unfold Header.get
  cases hv : r.header.values n with
  | nil => simp
  | cons v vs => exact ((hr n hn).2 v (by simp [hv])).2

theorem renderVary_inj {p q : Request} {names : List String} (hp : Renderable p names)
    (hq : Renderable q names) (h : renderVary p names = renderVary q names) :
    ∀ n ∈ names, p.header.get n = q.header.get n := by
  induction names with
  | nil => simp
  | cons n names ih =>
    have hl := congrArg String.toList h
    have hend : (";" : String).toList = [';'] := rfl
    simp only [renderVary, String.toList_append, hend, List.append_assoc, List.singleton_append,
      List.append_cancel_left_eq] at hl
    have hn : n ∈ n :: names := List.mem_cons_self ..
    obtain ⟨hget, hrest⟩ := eq_of_fields_eq (get_noSemicolon hn hp) (get_noSemicolon hn hq)
      (separated_cons ..) (separated_cons ..) hl
    intro a ha
    rcases List.mem_cons.mp ha with rfl | ha
    · exact String.toList_inj.mp hget
    · exact ih (fun m hm => hp m (List.mem_cons_of_mem _ hm))
        (fun m hm => hq m (List.mem_cons_of_mem _ hm))
        (String.toList_inj.mp (List.cons.inj hrest).2) a ha

theorem buildVaryKey_inj {p q : Request} {names : List String} (hp : Renderable p names)
    (hq : Renderable q names) (h : buildVaryKey names p = buildVaryKey names q) :
    ∀ n ∈ names, p.header.values n = q.header.values n := by
  intro n hn
  unfold buildVaryKey at h
  rw [if_neg (List.ne_nil_of_mem hn), if_neg (List.ne_nil_of_mem hn)] at h
  have hrender : renderVary p names = renderVary q names := by
    rw [← String.toList_inj]
    have hl := congrArg String.toList h
    simpa only [String.toList_append, List.append_cancel_left_eq] using hl
  exact values_of_get hn hp hq (renderVary_inj hp hq hrender n hn)

/-- A value that contains the separator moves the boundary between two headers. -/
example :
    let p : Request := { method := "GET", host := "shop", requestURI := "/",
                         header := Header.ofList [("A", ["1;B=2"]), ("B", ["3"])] }
    let q : Request := { method := "GET", host := "shop", requestURI := "/",
                         header := Header.ofList [("A", ["1"]), ("B", ["2;B=3"])] }
    buildVaryKey ["A", "B"] p = buildVaryKey ["A", "B"] q := by
  decide +kernel

/-- The `Vary` field lines of a response. -/
def varyLines (cw : Capture) : List String := cw.header.values "Vary"

def listedIn (line : String) : List String := ((split line ',').map trimSpace).filter (· ≠ "")

/-- The key can be read back under the hint in force, and a response has at most one `Vary` line,
whose names can be read back. -/
def Separable (s : Middleware) : Event → Prop
  | .request q _ =>
    KeyPlain q ∧ Renderable q ((s.cache.varyHints.lookup (requestKey q)).getD [])
  | .response i cw _ =>
    (varyLines cw).length ≤ 1 ∧
      ∀ f ∈ s.fetches[i]?, Renderable f.request (parseVary (cw.header.get "Vary"))
  | .failure _ => True

instance decidableSeparable (s : Middleware) : (e : Event) → Decidable (Separable s e)
  | .request q _ => inferInstanceAs (Decidable (KeyPlain q ∧ _))
  | .response i _ _ => inferInstanceAs (Decidable (_ ∧ ∀ f ∈ s.fetches[i]?, _))
  | .failure _ => isTrue trivial

theorem listed_mem_parseVary {cw : Capture} (hone : (varyLines cw).length ≤ 1) {line name : String}
    (hline : line ∈ varyLines cw) (hname : name ∈ listedIn line) :
    canonicalHeaderKey name ∈ parseVary (cw.header.get "Vary") := by
  obtain ⟨hmem, hne⟩ := List.mem_filter.mp hname
  obtain ⟨raw, hraw, rfl⟩ := List.mem_map.mp hmem
  have hget : cw.header.get "Vary" = line := by
    rcases eq_nil_or_singleton hone with h | ⟨v, h⟩
    · rw [h] at hline
      exact absurd hline (List.not_mem_nil)
    · rw [h, List.mem_singleton] at hline
      rw [Header.get, ← varyLines, h, hline]
      rfl
  unfold parseVary
  rw [hget, if_neg]
  · apply List.mem_filter.mpr
    refine ⟨List.mem_map_of_mem hraw, decide_eq_true ?_⟩
    rw [ne_eq, canonicalHeaderKey_eq_empty]
    exact of_decide_eq_true hne
  · rintro rfl
    obtain rfl : raw = "" := by simpa [split, splitChars] using hraw
    exact absurd (of_decide_eq_true hne) (by decide)

namespace Middleware

/-- The requests in progress have plain keys, and every response stored so far kept the condition.
-/
structure Readable (s : Middleware) : Prop where
  fetches : ∀ f ∈ s.fetches, KeyPlain f.request
  stores : ∀ p cw t, Access.store p cw t ∈ s.calls → KeyPlain p ∧ (varyLines cw).length ≤ 1 ∧
    Renderable p (parseVary (cw.header.get "Vary"))

theorem starts_request {r : Request} {served : Served} {f : Fetch} (hf : f ∈ starts r served) :
    f.request = r := by
  unfold starts at hf
  split at hf
  · rw [List.mem_singleton.mp hf]
  · rw [List.mem_singleton.mp hf]
  · exact absurd hf (List.not_mem_nil)

theorem Readable.step {s s' : Middleware} {e : Event} (h : s.Readable) (hok : Separable s e)
    (hs : s.step e = some s') : s'.Readable := by
  cases e with
  | request r now =>
    rw [step_request] at hs
    cases hs
    constructor
    · intro f hf
      rcases List.mem_append.mp hf with hf | hf
      · exact h.fetches f hf
      · rw [starts_request hf]
        exact hok.1
    · intro p cw t hc
      rcases List.mem_append.mp hc with hc | hc
      · exact h.stores p cw t hc
      · unfold lookups at hc
        split at hc <;> simp at hc
  | response i cw now =>
    obtain ⟨f, hf, rfl⟩ := Option.map_eq_some_iff.mp hs
    constructor
    · intro g hg
      exact h.fetches g (List.mem_of_mem_eraseIdx hg)
    · intro p cw' t hc
      rcases List.mem_append.mp hc with hc | hc
      · exact h.stores p cw' t hc
      · cases List.mem_singleton.mp hc
        exact ⟨h.fetches f (List.mem_of_getElem? hf), hok.1, hok.2 f hf⟩
  | failure i =>
    obtain ⟨f, _, rfl⟩ := Option.map_eq_some_iff.mp hs
    constructor
    · intro g hg
      exact h.fetches g (List.mem_of_mem_eraseIdx hg)
    · exact h.stores

theorem lookupKey_eq (c : ResponseCache) (baseKey : String) (r : Request) :
    c.lookupKey baseKey r =
      baseKey ++ buildVaryKey ((c.varyHints.lookup baseKey).getD []) r := by
  unfold ResponseCache.lookupKey
  cases c.varyHints.lookup baseKey with
  | none => simp [buildVaryKey]
  | some names => rfl

end Middleware

/-- A request is answered from the cache only with an entry made for an earlier request of the
same method, host and URI and with the same field values for every header the response varies on.
-/
theorem vary_isolation (cfg : CacheConfig) (es : List Event) (q : Request) (now : ℤ)
    (s : Middleware) (e : CacheEntry)
    (hm : Meets Middleware.step Separable (Middleware.init cfg) (es ++ [.request q now]))
    (hr : exec Middleware.step (Middleware.init cfg) es = some s)
    (ha : s.answered q now = some e) :
    (∃ p cw t, Access.store p cw t ∈ s.calls ∧
      entryFromCapture (newCache cfg).defaultTTL p (requestKey p) cw t = some e) ∧
    ∀ p cw t, Access.store p cw t ∈ s.calls →
      entryFromCapture (newCache cfg).defaultTTL p (requestKey p) cw t = some e →
      p.method = q.method ∧ p.keyHost = q.keyHost ∧ p.requestURI = q.requestURI ∧
        ∀ line ∈ varyLines cw, ∀ name ∈ listedIn line,
          p.header.values name = q.header.values name := by
  obtain ⟨hmes, hmq⟩ := meets_append.mp hm
  have hread : s.Readable := exec_invariant (fun _ _ _ hi hok hs => hi.step hok hs) hmes hr
    ⟨by simp [Middleware.init], by simp [Middleware.init]⟩
  obtain ⟨hq, hqr⟩ := (hmq s hr).1
  have hfaith := Middleware.faithful_run hr
  obtain ⟨hlive, hkey, _⟩ := Middleware.answered_live hfaith ha
  obtain ⟨uses, hrep⟩ := hfaith
  constructor
  · obtain ⟨p, cw, t, hc, he⟩ := hrep.origin e hlive
    exact ⟨p, cw, t, hc, hrep.settings.defaultTTL ▸ he⟩
  · intro p cw t hc he
    obtain ⟨hp, hone, hpr⟩ := hread.stores p cw t hc
    have hmade := entryFromCapture_madeFrom he
    rw [hmade.key_eq, Middleware.lookupKey_eq] at hkey
    obtain ⟨hmeth, hhost, huri, hvary⟩ := requestKey_inj hp hq (buildVaryKey_separated ..)
      (buildVaryKey_separated ..) hkey
    have hbase : requestKey p = requestKey q := by
      rw [requestKey, requestKey, hmeth, hhost, huri]
    -- the hint in force for the request is the one the entry was stored under
    have hnames : (s.cache.varyHints.lookup (requestKey q)).getD [] = e.varyNames := by
      rw [hrep.hinted.varyNames e hlive, hmade.baseKey_eq, hbase]
    rw [hnames] at hvary hqr
    rw [← hmade.varyNames_eq] at hpr
    refine ⟨hmeth, hhost, huri, ?_⟩
    intro line hline name hname
    have hmem := listed_mem_parseVary hone hline hname
    rw [← hmade.varyNames_eq] at hmem
    simpa using buildVaryKey_inj hpr hqr hvary _ hmem

/-- A request for the front page with the given headers. -/
def frontPage (fields : List (String × List String)) : Request :=
  { method := "GET", host := "shop", requestURI := "/", header := Header.ofList fields }

/-- A cacheable page with the given `Vary` field lines. -/
def varying (lines : List String) : Capture :=
  { header := Header.ofList [("Vary", lines)], body := "hello" }

/-- One `Vary` line and one value: the second request is answered with the first one's
entry, and has its language. -/
theorem vary_isolation_language :
    Meets Middleware.step Separable (Middleware.init {})
      ([.request (frontPage [("Accept-Language", ["en"])]) 0,
        .response 0 (varying ["accept-language"]) 1] ++
        [.request (frontPage [("Accept-Language", ["en"]), ("Accept", ["*/*"])]) 2]) ∧
    ∃ s e, exec Middleware.step (Middleware.init {})
        [.request (frontPage [("Accept-Language", ["en"])]) 0,
          .response 0 (varying ["accept-language"]) 1] = some s ∧
      s.answered (frontPage [("Accept-Language", ["en"]), ("Accept", ["*/*"])]) 2 = some e ∧
      (frontPage [("Accept-Language", ["en"])]).header.values "accept-language" =
        (frontPage [("Accept-Language", ["en"]), ("Accept", ["*/*"])]).header.values
          "accept-language" :=
  have hm := by decide +kernel
  ⟨hm, _, _, rfl, rfl,
    ((vary_isolation {} _ _ _ _ _ hm rfl rfl).2 _ (varying ["accept-language"]) 1
      (List.mem_append_right _ (List.mem_singleton.mpr rfl)) rfl).2.2.2 "accept-language"
      (by decide +kernel) "accept-language" (by decide +kernel)⟩

/-- Two `Vary` lines, of which only the first is read: a request in French is answered
with the entry of one in English. -/
theorem vary_second_line_ignored :
    ∃ s e, exec Middleware.step (Middleware.init {})
        [.request (frontPage [("Accept-Language", ["en"])]) 0,
          .response 0 (varying ["Accept-Encoding", "Accept-Language"]) 1] = some s ∧
      s.answered (frontPage [("Accept-Language", ["fr"])]) 2 = some e ∧
      Access.store (frontPage [("Accept-Language", ["en"])])
        (varying ["Accept-Encoding", "Accept-Language"]) 1 ∈ s.calls ∧
      entryFromCapture (newCache {}).defaultTTL (frontPage [("Accept-Language", ["en"])])
        (requestKey (frontPage [("Accept-Language", ["en"])]))
        (varying ["Accept-Encoding", "Accept-Language"]) 1 = some e ∧
      "Accept-Language" ∈ varyLines (varying ["Accept-Encoding", "Accept-Language"]) ∧
      "Accept-Language" ∈ listedIn "Accept-Language" ∧
      (frontPage [("Accept-Language", ["en"])]).header.values "Accept-Language" ≠
        (frontPage [("Accept-Language", ["fr"])]).header.values "Accept-Language" :=
  ⟨_, _, rfl, rfl, by simp [Middleware.init], rfl, by decide +kernel, by decide +kernel,
    by decide +kernel⟩

end ReverseProxyLb.Cache
