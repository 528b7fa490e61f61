import ReverseProxyLb.Base.Text

/-! The client is what the outermost trusted proxy has appended to `X-Forwarded-For`. A
proxy may extend the last line or add one, so the chain is read off all lines; `ClientIP`
reads the first. -/
namespace ReverseProxyLb.Netutil
open Text

/-- An address; the IPv6 addresses that stand for an IPv4 one are that one. -/
inductive IP where
  | v4 (a : BitVec 32)
  | v6 (a : BitVec 128)
  deriving DecidableEq, Repr

/-- `net.IPNet`. -/
inductive IPNet where
  | v4 (ip mask : BitVec 32)
  | v6 (ip mask : BitVec 128)
  deriving DecidableEq, Repr

/-- `n.Contains(ip)`: no network has addresses of the other length. -/
def IPNet.contains : IPNet → IP → Bool
  | .v4 ip mask, .v4 a => ip &&& mask == a &&& mask
  | .v6 ip mask, .v6 a => ip &&& mask == a &&& mask
  | _, _ => false

def IPNet.host : IP → IPNet
  | .v4 a => .v4 a (BitVec.allOnes 32)
  | .v6 a => .v6 a (BitVec.allOnes 128)

/-- The parsers of the package `net`. -/
structure Parsers where
  parseIP : String → Option IP
  parseCIDR : String → Option IPNet

structure Request where
  remoteAddr : String
  header : Header
  method : String := "GET"
  path : String := "/"

/-- `net.SplitHostPort`, the host only; `none` is an error. -/
def splitHostPort (hostport : List Char) : Option (List Char) :=
  -- the port starts after the last colon
  let i := hostport.length - 1 - hostport.reverse.idxOf ':'
  let end_ := hostport.idxOf ']'
  if ':' ∉ hostport then none
  else if hostport.head? = some '[' then
    if end_ + 1 ≠ i then none
    else if '[' ∈ hostport.drop 1 ∨ ']' ∈ hostport.drop (end_ + 1) then none
    else some ((hostport.take end_).drop 1)
  else if ':' ∈ hostport.take i then none
  else if '[' ∈ hostport ∨ ']' ∈ hostport then none
  else some (hostport.take i)

def peerIP (r : Request) : String :=
  match splitHostPort r.remoteAddr.toList with
  | some host => String.ofList host
  | none => r.remoteAddr

variable (net : Parsers)

def parseCIDRs (entries : List String) : List IPNet :=
  entries.filterMap fun e =>
    let e := trimSpace e
    if e = "" then none
    else match net.parseCIDR e with
      | some ipnet => some ipnet
      | none => (net.parseIP e).map .host

def ipInNets (ip : Option IP) (nets : List IPNet) : Bool :=
  match ip with
  | none => false
  | some ip => nets.any (·.contains ip)

/-- The loop of `ClientIP`, on the parts from the last to the first. -/
def walk (trusted : List IPNet) : List String → Option String
  | [] => none
  | part :: parts =>
    let ip := trimSpace part
    if ip = "" then walk trusted parts
    else if !ipInNets (net.parseIP ip) trusted then some ip
    else walk trusted parts

/-- `X-Real-IP`, and the peer without it. -/
def realIP (r : Request) : String :=
  let xr := trimSpace (r.header.get "X-Real-IP")
  if xr ≠ "" then xr else peerIP r

def clientIP (r : Request) (trusted : List IPNet) : String :=
  let peer := peerIP r
  if trusted.length = 0 ∨ !ipInNets (net.parseIP peer) trusted then peer
  else
    let xff := r.header.get "X-Forwarded-For"
    if xff ≠ "" then (walk net trusted (split xff ',').reverse).getD (realIP r)
    else realIP r

def lineEntries (line : String) : List String := (split line ',').map trimSpace

def entries (h : Header) : List String := (h.values "X-Forwarded-For").flatMap lineEntries

def stray (trusted : List IPNet) (e : String) : Bool := e ≠ "" && !ipInNets (net.parseIP e) trusted

def rightmost (trusted : List IPNet) (es : List String) : Option String :=
  es.reverse.find? (stray net trusted)

def FirstLineOnly (trusted : List IPNet) (h : Header) : Prop :=
  ∀ line ∈ (h.values "X-Forwarded-For").tail, ∀ e ∈ lineEntries line, stray net trusted e = false

variable {net} {trusted : List IPNet} {r : Request}

theorem walk_eq_find? (trusted : List IPNet) (parts : List String) :
    walk net trusted parts = (parts.map trimSpace).find? (stray net trusted) := by
  induction parts with
  | nil => rfl
  | cons part parts ih =>
    rw [walk, List.map_cons, List.find?_cons, ih]
    by_cases he : trimSpace part = ""
    · simp [stray, he]
    · cases hn : ipInNets (net.parseIP (trimSpace part)) trusted <;> simp [stray, he, hn]

theorem walk_reverse_split (trusted : List IPNet) (line : String) :
    walk net trusted (split line ',').reverse = rightmost net trusted (lineEntries line) := by
  rw [walk_eq_find?, rightmost, lineEntries, List.map_reverse]

theorem rightmost_append (trusted : List IPNet) (left right : List String) :
    rightmost net trusted (left ++ right) =
      (rightmost net trusted right).or (rightmost net trusted left) := by
  unfold rightmost
  rw [List.reverse_append, List.find?_append]

theorem rightmost_cons {e : String} {left right : List String} (he : stray net trusted e)
    (hright : ∀ x ∈ right, stray net trusted x = false) :
    rightmost net trusted (left ++ e :: right) = some e := by
  have hnone : rightmost net trusted right = none := by
    apply List.find?_eq_none.mpr
    intro x hx
    rw [hright x (List.mem_reverse.mp hx)]
    exact Bool.false_ne_true
  have hone : rightmost net trusted [e] = some e := by
    change [e].find? (stray net trusted) = some e
    rw [List.find?_cons_of_pos he]
  rw [← List.singleton_append, rightmost_append, rightmost_append, hnone, hone]
  rfl

theorem rightmost_entries {h : Header} (hfirst : FirstLineOnly net trusted h) :
    rightmost net trusted (entries h) =
      rightmost net trusted ((h.values "X-Forwarded-For").head?.elim [] lineEntries) := by
  unfold FirstLineOnly at hfirst
  unfold entries
  cases hv : h.values "X-Forwarded-For" with
  | nil => rfl
  | cons line lines =>
    rw [hv] at hfirst
    have hnone : rightmost net trusted (lines.flatMap lineEntries) = none := by
      apply List.find?_eq_none.mpr
      intro e he
      obtain ⟨line', hline', he'⟩ := List.mem_flatMap.mp (List.mem_reverse.mp he)
      rw [hfirst line' hline' e he']
      exact Bool.false_ne_true
    rw [List.flatMap_cons, rightmost_append, hnone]
    rfl

theorem ipInNets_nil (ip : Option IP) : ipInNets ip [] = false := by cases ip <;> rfl

theorem clientIP_of_untrusted (h : ipInNets (net.parseIP (peerIP r)) trusted = false) :
    clientIP net r trusted = peerIP r := by
  unfold clientIP
  rw [if_pos (.inr (by rw [h]; rfl))]

theorem clientIP_of_trusted {e : String} (h : ipInNets (net.parseIP (peerIP r)) trusted)
    (he : rightmost net trusted
      ((r.header.values "X-Forwarded-For").head?.elim [] lineEntries) = some e) :
    clientIP net r trusted = e := by
  have hne : ¬ (trusted.length = 0 ∨ (!ipInNets (net.parseIP (peerIP r)) trusted) = true) := by
    rw [h, List.length_eq_zero_iff]
    rintro (rfl | hf)
    · rw [ipInNets_nil] at h
      cases h
    · cases hf
  unfold clientIP Header.get
  rw [if_neg hne]
  cases hv : r.header.values "X-Forwarded-For" with
  | nil =>
    rw [hv] at he
    cases he
  | cons line lines =>
    rw [hv] at he
    change rightmost net trusted (lineEntries line) = some e at he
    change (if line ≠ "" then (walk net trusted (split line ',').reverse).getD (realIP r)
      else realIP r) = e
    rw [walk_reverse_split, he]
    split_ifs with hline
    · rfl
    · obtain rfl : line = "" := not_not.mp hline
      cases he

/-- `e` stands in a line with `n` lines before it, followed by `right` in that line and by the
lines `later`. -/
def Placed (e : String) (right later : List String) (n : ℕ) (h : Header) : Prop :=
  ∃ earlier line left, h.values "X-Forwarded-For" = earlier ++ line :: later ∧ earlier.length = n ∧
    lineEntries line = left ++ e :: right

section Placed
variable {e : String} {right later : List String} {n : ℕ} {h : Header}

theorem Placed.rightmost (hp : Placed e right later n h) (he : stray net trusted e)
    (hright : ∀ x ∈ right, stray net trusted x = false)
    (hlater : ∀ line ∈ later, ∀ x ∈ lineEntries line, stray net trusted x = false) :
    rightmost net trusted (entries h) = some e := by
  obtain ⟨earlier, line, left, hvalues, -, hline⟩ := hp
  have hentries : entries h =
      (earlier.flatMap lineEntries ++ left) ++ e :: (right ++ later.flatMap lineEntries) := by
    simp [entries, hvalues, hline]
  rw [hentries]
  apply rightmost_cons he
  intro x hx
  rcases List.mem_append.mp hx with hx | hx
  · exact hright x hx
  · obtain ⟨line', hline', hx⟩ := List.mem_flatMap.mp hx
    exact hlater line' hline' x hx

theorem Placed.clientIP (hp : Placed e right later 0 h) (he : stray net trusted e)
    (hright : ∀ x ∈ right, stray net trusted x = false)
    (hpeer : ipInNets (net.parseIP (peerIP r)) trusted) :
    clientIP net { r with header := h } trusted = e := by
  obtain ⟨earlier, line, left, hvalues, hlength, hline⟩ := hp
  obtain rfl := List.eq_nil_of_length_eq_zero hlength
  apply clientIP_of_trusted (r := { r with header := h }) hpeer
  simp [hvalues, hline, rightmost_cons he hright]

def withLines (h : Header) (lines : List String) : Header :=
  fun key => if key = canonicalHeaderKey "X-Forwarded-For" then lines else h key

theorem values_withLines (h : Header) (lines : List String) :
    (withLines h lines).values "X-Forwarded-For" = lines := by
  unfold Header.values withLines
  exact if_pos rfl

theorem clientIP_withLines {f : String} (hf : net.parseIP f = none) (hone : lineEntries f = [f])
    (hne : f ≠ "") (hpeer : ipInNets (net.parseIP (peerIP r)) trusted) (lines : List String) :
    clientIP net { r with header := withLines r.header (f :: lines) } trusted = f := by
  apply clientIP_of_trusted (r := { r with header := withLines r.header (f :: lines) }) hpeer
  have hstray : stray net trusted f := by simp [stray, hne, hf, ipInNets]
  rw [values_withLines]
  change rightmost net trusted (lineEntries f) = some f
  rw [hone]
  have hlast : rightmost net trusted ([] ++ f :: []) = some f := rightmost_cons hstray (by simp)
  exact hlast

end Placed

/-- An untrusted peer is the client. Behind a trusted one, the right-most untrusted entry of all
lines is, for every text to the left of it, with `n` lines before its own, exactly if `n` is 0. -/
theorem clientIP_resists_spoofing_iff (net : Parsers)
    (hnames : ∀ s ∈ ["unknown", "hidden"], net.parseIP s = none) (trusted : List IPNet) (r : Request) :
    (ipInNets (net.parseIP (peerIP r)) trusted = false →
      ∀ header, clientIP net { r with header := header } trusted = peerIP r) ∧
    (ipInNets (net.parseIP (peerIP r)) trusted → ∀ e right later, stray net trusted e →
      (∀ x ∈ right, stray net trusted x = false) →
      (∀ line ∈ later, ∀ x ∈ lineEntries line, stray net trusted x = false) →
      (∃ header, Placed e right later 0 header) →
      (∀ n header, Placed e right later n header → rightmost net trusted (entries header) = some e) ∧
      ∀ n, (∀ header, Placed e right later n header →
        clientIP net { r with header := header } trusted = e) ↔ n = 0) := by
  refine ⟨fun h header => clientIP_of_untrusted (r := { r with header := header }) h, ?_⟩
  intro hpeer e right later he hright hlater hline
  refine ⟨fun n header hp => hp.rightmost he hright hlater, fun n => ⟨fun hall => ?_, ?_⟩⟩
  · by_contra hn
    obtain ⟨k, rfl⟩ := Nat.exists_eq_succ_of_ne_zero hn
    obtain ⟨-, -, line, left, -, -, hentries⟩ := hline
    -- A text other than `e` in every line before that of `e`.
    obtain ⟨f, hf, hfe⟩ : ∃ f ∈ ["unknown", "hidden"], f ≠ e := by
      by_cases hu : "unknown" = e
      · exact ⟨"hidden", by simp, by rw [← hu]; decide⟩
      · exact ⟨"unknown", by simp, hu⟩
    have hone : lineEntries f = [f] ∧ f ≠ "" := by
      rcases List.mem_pair.mp hf with rfl | rfl
      · decide +kernel
      · decide +kernel
    have hplaced : Placed e right later (k + 1)
        (withLines r.header (List.replicate (k + 1) f ++ line :: later)) :=
      ⟨_, line, left, values_withLines .., List.length_replicate, hentries⟩
    have hspoofed := clientIP_withLines (hnames f hf) hone.1 hone.2 hpeer
      (List.replicate k f ++ line :: later)
    exact hfe (hspoofed.symm.trans (hall _ hplaced))
  · rintro rfl header hp
    exact hp.clientIP he hright hpeer

/-- `config.ACLConfig`. -/
structure ACLConfig where
  allow : List String := []
  deny : List String := []
  methods : List String := []
  blockedPaths : List String := []

/-- `ACL`: the status and the text of a refusal, or none. -/
def acl (net : Parsers) (cfg : ACLConfig) (trusted : List IPNet) (r : Request) :
    Option (ℤ × String) :=
  let allow := parseCIDRs net cfg.allow
  let deny := parseCIDRs net cfg.deny
  let methods := cfg.methods.map fun m => toUpper (trimSpace m)
  let blocked := (cfg.blockedPaths.map trimSpace).filter (· ≠ "")
  let ip := net.parseIP (clientIP net r trusted)
  if cfg.allow.length = 0 ∧ cfg.deny.length = 0 ∧ cfg.methods.length = 0 ∧
      cfg.blockedPaths.length = 0 then none
  else if 0 < deny.length ∧ ipInNets ip deny then some (403, "forbidden")
  else if 0 < allow.length ∧ !ipInNets ip allow then some (403, "forbidden")
  else if 0 < methods.length ∧ toUpper r.method ∉ methods then some (405, "method not allowed")
  else if blocked.any fun p => (after? p r.path).isSome then some (403, "forbidden")
  else none

/-- What access control makes of a request does not depend on what is left of the
entry that names the client. -/
theorem acl_header {cfg : ACLConfig} {header : Header} {left left' right : List String} {e : String}
    (h : ipInNets (net.parseIP (peerIP r)) trusted)
    (hr : FirstLineOnly net trusted r.header) (hh : FirstLineOnly net trusted header)
    (hleft : entries r.header = left ++ e :: right) (hleft' : entries header = left' ++ e :: right)
    (he : stray net trusted e) (hright : ∀ x ∈ right, stray net trusted x = false) :
    acl net cfg trusted { r with header := header } = acl net cfg trusted r := by
  have hip : clientIP net { r with header := header } trusted = clientIP net r trusted := by
    rw [clientIP_of_trusted (r := r) (e := e) h, clientIP_of_trusted (r := { r with header := header })
      (e := e) h]
    · rw [← rightmost_entries hh, hleft', rightmost_cons he hright]
    · rw [← rightmost_entries hr, hleft, rightmost_cons he hright]
  simp only [acl, hip]

def octet (s : String) : Option (BitVec 8) :=
  if s.toList.length = 0 ∨ 3 < s.toList.length ∨ (1 < s.toList.length ∧ s.toList.head? = some '0')
  then none
  else (digits? s.toList 0).bind fun n => if n ≤ 255 then some n else none

def parseIPv4 (s : String) : Option (BitVec 32) :=
  match (split s '.').map octet with
  | [some a, some b, some c, some d] => some (a ++ b ++ c ++ d)
  | _ => none

/-- The parsers on the texts of IPv4 addresses and networks. -/
def ipv4 : Parsers where
  parseIP s := (parseIPv4 s).map .v4
  parseCIDR s :=
    match split s '/' with
    | [addr, bits] =>
      match parseIPv4 addr, digits? bits.toList 0 with
      | some a, some n =>
        if n ≤ 32 then some (.v4 a (BitVec.allOnes 32 <<< (32 - n))) else none
      | _, _ => none
    | _ => none

/-- A request that two proxies have passed on, the inner one, which is trusted, with a line of its
own. -/
def forwarded (lines : List String) : Request where
  remoteAddr := "10.0.0.1:443"
  header := Header.ofList [("X-Forwarded-For", lines)]

/-- The right-most untrusted entry is in the second line, and a client that sends the
first line is taken for whom it says. -/
theorem clientIP_spoofed :
    let trusted := parseCIDRs ipv4 ["10.0.0.0/8"]
    ipInNets (ipv4.parseIP (peerIP (forwarded []))) trusted ∧
    rightmost ipv4 trusted (entries (forwarded ["1.2.3.4", "203.0.113.9"]).header) =
      some "203.0.113.9" ∧
    clientIP ipv4 (forwarded ["1.2.3.4", "203.0.113.9"]) trusted = "1.2.3.4" ∧
    clientIP ipv4 (forwarded ["5.6.7.8", "203.0.113.9"]) trusted = "5.6.7.8" := by
  decide +kernel

/-- In the first of two lines the entry is found, and in a second line it need not be. -/
theorem clientIP_resists_spoofing_iff_lines :
    let trusted := parseCIDRs ipv4 ["10.0.0.0/8"]
    clientIP ipv4 (forwarded ["1.2.3.4, 203.0.113.9,10.0.0.7", "10.0.0.8"]) trusted = "203.0.113.9" ∧
      ¬ ∀ header, Placed "203.0.113.9" ["10.0.0.7"] ["10.0.0.8"] 1 header →
        clientIP ipv4 { forwarded [] with header := header } trusted = "203.0.113.9" := by
  intro trusted
  have hplaced : Placed "203.0.113.9" ["10.0.0.7"] ["10.0.0.8"] 0
      (forwarded ["1.2.3.4, 203.0.113.9,10.0.0.7", "10.0.0.8"]).header :=
    ⟨[], "1.2.3.4, 203.0.113.9,10.0.0.7", ["1.2.3.4"], by decide +kernel, rfl, by decide +kernel⟩
  have hiff := ((clientIP_resists_spoofing_iff ipv4 (by decide +kernel) trusted (forwarded [])).2
    (by decide +kernel) "203.0.113.9" ["10.0.0.7"] ["10.0.0.8"] (by decide +kernel)
    (by decide +kernel) (by decide +kernel) ⟨_, hplaced⟩).2
  exact ⟨(hiff 0).mpr rfl _ hplaced, fun h => absurd ((hiff 1).mp h) one_ne_zero⟩

theorem acl_header_oneLine :
    let trusted := parseCIDRs ipv4 ["10.0.0.0/8"]
    let spoofed :=
      { forwarded ["203.0.113.9"] with header := (forwarded ["5.6.7.8, 203.0.113.9"]).header }
    acl ipv4 { deny := ["203.0.113.0/24"] } trusted spoofed =
      acl ipv4 { deny := ["203.0.113.0/24"] } trusted (forwarded ["203.0.113.9"]) := by
  intro trusted spoofed
  have hpeer : ipInNets (ipv4.parseIP (peerIP (forwarded ["203.0.113.9"]))) trusted := by
    decide +kernel
  have hplain : entries (forwarded ["203.0.113.9"]).header = [] ++ "203.0.113.9" :: [] := by
    decide +kernel
  have hspoofed : entries (forwarded ["5.6.7.8, 203.0.113.9"]).header =
      ["5.6.7.8"] ++ "203.0.113.9" :: [] := by
    decide +kernel
  have hstray : stray ipv4 trusted "203.0.113.9" := by decide +kernel
  exact acl_header hpeer
    (by intro line hline; cases hline) (by intro line hline; cases hline) hplain hspoofed hstray
    (by simp)

end ReverseProxyLb.Netutil
