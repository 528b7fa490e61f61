import ReverseProxyLb.Lib.Run

/-! A call of `get` looks at the two files in up to six steps: two stats to compare, two
reads to load, two stats to stamp. Nothing keeps the files as they are between these steps.
-/
namespace ReverseProxyLb.Tlsutil
open Lib

structure Pem where
  text : String
  mtime : ℤ
  deriving DecidableEq

def mtime (file : Option Pem) : ℤ := (file.map Pem.mtime).getD 0

variable {κ : Type*}

structure LoadedCert (κ : Type*) where
  cert : κ
  certMtime : ℤ
  keyMtime : ℤ

/-- The next step of a call of `get`, with what it has found so far. -/
inductive Phase (κ : Type*) where
  | idle
  | statCert
  | statKey (cm : ℤ)
  | readCert
  | readKey (cert : String)
  | stampCert (cert : κ)
  | stampKey (cert : κ) (certMtime : ℤ)

def Phase.isIdle : Phase κ → Bool
  | .idle => true
  | _ => false

theorem Phase.eq_idle_of_isIdle {phase : Phase κ} (h : phase.isIdle = true) : phase = .idle := by
  cases phase with
  | idle => rfl
  | _ => cases h

/-- The cache entry of a pair of files, and the files with all their versions. -/
structure CertResolver (κ : Type*) where
  certFile : Option Pem
  keyFile : Option Pem
  cache : Option (LoadedCert κ) := none
  phase : Phase κ := .idle
  /-- What the last call returned; `none` for an error. -/
  returned : Option κ := none
  certVersions : List Pem
  keyVersions : List Pem

/-- A file is replaced or removed, a call begins, or the call takes its next step. -/
inductive Event where
  | rotateCert (file : Option Pem)
  | rotateKey (file : Option Pem)
  | get
  | advance
  deriving DecidableEq

namespace CertResolver

def finish (r : CertResolver κ) (result : Option κ) : CertResolver κ :=
  { r with phase := .idle, returned := result }

def fallBack (r : CertResolver κ) : CertResolver κ := r.finish (r.cache.map LoadedCert.cert)

def get (reload : Bool) (r : CertResolver κ) : CertResolver κ :=
  match r.cache with
  | some cached => if reload then { r with phase := .statCert } else r.finish (some cached.cert)
  | none => { r with phase := .readCert }

def compare (r : CertResolver κ) (cm km : ℤ) : CertResolver κ :=
  match r.cache with
  | some cached =>
    if cm = cached.certMtime ∧ km = cached.keyMtime ∧ cm ≠ 0 then r.finish (some cached.cert)
    else { r with phase := .readCert }
  | none => { r with phase := .readCert }

/-- One step of `get`. `LoadX509KeyPair` reads the two files one after the other; `keyPair` is
what it makes of their texts. -/
def advance (keyPair : String → String → Option κ) (r : CertResolver κ) : Option (CertResolver κ) :=
  match r.phase with
  | .idle => none
  | .statCert => some { r with phase := .statKey (mtime r.certFile) }
  | .statKey cm => some (r.compare cm (mtime r.keyFile))
  | .readCert =>
    match r.certFile with
    | some cert => some { r with phase := .readKey cert.text }
    | none => some r.fallBack
  | .readKey text =>
    match r.keyFile.bind fun key => keyPair text key.text with
    | some cert => some { r with phase := .stampCert cert }
    | none => some r.fallBack
  | .stampCert cert => some { r with phase := .stampKey cert (mtime r.certFile) }
  | .stampKey cert cm => some (finish { r with cache := some ⟨cert, cm, mtime r.keyFile⟩ } (some cert))

def step (keyPair : String → String → Option κ) (reload : Bool) (r : CertResolver κ) :
    Event → Option (CertResolver κ)
  | .rotateCert file =>
    if ∀ pem ∈ file, pem.mtime ∉ r.certVersions.map Pem.mtime then
      some { r with certFile := file, certVersions := file.toList ++ r.certVersions }
    else none
  | .rotateKey file =>
    if ∀ pem ∈ file, pem.mtime ∉ r.keyVersions.map Pem.mtime then
      some { r with keyFile := file, keyVersions := file.toList ++ r.keyVersions }
    else none
  | .get => if r.phase.isIdle then some (r.get reload) else none
  | .advance => r.advance keyPair

def start (certFile keyFile : Option Pem) : CertResolver κ where
  certFile := certFile
  keyFile := keyFile
  certVersions := certFile.toList
  keyVersions := keyFile.toList

def current (keyPair : String → String → Option κ) (r : CertResolver κ) : Option κ :=
  r.certFile.bind fun cert => r.keyFile.bind fun key => keyPair cert.text key.text

end CertResolver

def Phase.holdsCert : Phase κ → Bool
  | .readKey _ => true
  | .stampCert _ => true
  | _ => false

def Phase.holdsKey : Phase κ → Bool
  | .stampCert _ => true
  | .stampKey _ _ => true
  | _ => false

namespace CertResolver

def Undisturbed (r : CertResolver κ) : Event → Prop
  | .rotateCert _ => r.phase.holdsCert = false
  | .rotateKey _ => r.phase.holdsKey = false
  | _ => True

instance (r : CertResolver κ) : (e : Event) → Decidable (r.Undisturbed e)
  | .rotateCert _ => inferInstanceAs (Decidable (_ = _))
  | .rotateKey _ => inferInstanceAs (Decidable (_ = _))
  | .get => isTrue trivial
  | .advance => isTrue trivial

def Midway (keyPair : String → String → Option κ) (r : CertResolver κ) : Phase κ → Prop
  | .readKey text => ∃ cert ∈ r.certFile, cert.text = text
  | .stampCert c => ∃ cert ∈ r.certFile, ∃ key ∈ r.keyFile, keyPair cert.text key.text = some c
  | .stampKey c cm =>
    ∃ cert ∈ r.certVersions, cert.mtime = cm ∧ ∃ key ∈ r.keyFile, keyPair cert.text key.text = some c
  | _ => True

/-- The cached certificate is that of the two versions whose times it is stamped with. -/
structure Tracked (keyPair : String → String → Option κ) (r : CertResolver κ) : Prop where
  certTimes : (r.certVersions.map Pem.mtime).Nodup
  keyTimes : (r.keyVersions.map Pem.mtime).Nodup
  certFile : ∀ cert ∈ r.certFile, cert ∈ r.certVersions
  keyFile : ∀ key ∈ r.keyFile, key ∈ r.keyVersions
  cache : ∀ l ∈ r.cache, ∃ cert ∈ r.certVersions, ∃ key ∈ r.keyVersions,
    cert.mtime = l.certMtime ∧ key.mtime = l.keyMtime ∧ keyPair cert.text key.text = some l.cert
  midway : r.Midway keyPair r.phase

variable {keyPair : String → String → Option κ} {reload : Bool} {r r' : CertResolver κ}
  {file : Option Pem} {c : κ}

theorem mtime_of_mem {pem : Pem} (h : pem ∈ file) : mtime file = pem.mtime := by
  rw [Option.mem_def.mp h]
  rfl

theorem nodup_rotated {versions : List Pem} (h : (versions.map Pem.mtime).Nodup)
    (hfile : ∀ pem ∈ file, pem.mtime ∉ versions.map Pem.mtime) :
    ((file.toList ++ versions).map Pem.mtime).Nodup := by
  cases file with
  | none => exact h
  | some pem => exact List.nodup_cons.mpr ⟨hfile pem rfl, h⟩

theorem start_tracked (certFile keyFile : Option Pem) : Tracked keyPair (start certFile keyFile) := by
  refine ⟨?_, ?_, fun cert hcert => ?_, fun key hkey => ?_, fun l hl => ?_, trivial⟩
  · cases certFile <;> simp [start]
  · cases keyFile <;> simp [start]
  · exact Option.mem_toList.mpr hcert
  · exact Option.mem_toList.mpr hkey
  · cases hl

theorem Tracked.rotateCert (h : Tracked keyPair r) (hheld : r.phase.holdsCert = false)
    (hfile : ∀ pem ∈ file, pem.mtime ∉ r.certVersions.map Pem.mtime) :
    Tracked keyPair { r with certFile := file, certVersions := file.toList ++ r.certVersions } := by
  have hold : ∀ pem ∈ r.certVersions, pem ∈ file.toList ++ r.certVersions :=
    fun pem hpem => List.mem_append_right _ hpem
  refine ⟨nodup_rotated h.certTimes hfile, h.keyTimes, fun cert hcert => ?_, h.keyFile, fun l hl => ?_,
    ?_⟩
  · exact List.mem_append_left _ (Option.mem_toList.mpr hcert)
  · obtain ⟨cert, hcert, hrest⟩ := h.cache l hl
    exact ⟨cert, hold cert hcert, hrest⟩
  · have hmid := h.midway
    cases hphase : r.phase with
    | stampKey c cm =>
      rw [hphase] at hmid
      obtain ⟨cert, hcert, hrest⟩ := hmid
      exact ⟨cert, hold cert hcert, hrest⟩
    | readKey text =>
      rw [hphase] at hheld
      cases hheld
    | stampCert c =>
      rw [hphase] at hheld
      cases hheld
    | _ => trivial

theorem Tracked.rotateKey (h : Tracked keyPair r) (hheld : r.phase.holdsKey = false)
    (hfile : ∀ pem ∈ file, pem.mtime ∉ r.keyVersions.map Pem.mtime) :
    Tracked keyPair { r with keyFile := file, keyVersions := file.toList ++ r.keyVersions } := by
  refine ⟨h.certTimes, nodup_rotated h.keyTimes hfile, h.certFile, fun key hkey => ?_, fun l hl => ?_,
    ?_⟩
  · exact List.mem_append_left _ (Option.mem_toList.mpr hkey)
  · obtain ⟨cert, hcert, key, hkey, hrest⟩ := h.cache l hl
    exact ⟨cert, hcert, key, List.mem_append_right _ hkey, hrest⟩
  · have hmid := h.midway
    cases hphase : r.phase with
    | readKey text =>
      rw [hphase] at hmid
      exact hmid
    | stampCert c =>
      rw [hphase] at hheld
      cases hheld
    | stampKey c cm =>
      rw [hphase] at hheld
      cases hheld
    | _ => trivial

theorem Tracked.moved (h : Tracked keyPair r) {phase : Phase κ} {returned : Option κ}
    (hmid : r.Midway keyPair phase) :
    Tracked keyPair { r with phase := phase, returned := returned } :=
  ⟨h.certTimes, h.keyTimes, h.certFile, h.keyFile, h.cache, hmid⟩

theorem Tracked.get (h : Tracked keyPair r) : Tracked keyPair (r.get reload) := by
  unfold CertResolver.get
  split
  · split_ifs
    · exact h.moved trivial
    · exact h.moved trivial
  · exact h.moved trivial

theorem Tracked.advance (h : Tracked keyPair r) (hr : r.advance keyPair = some r') :
    Tracked keyPair r' := by
  have hmid := h.midway
  unfold CertResolver.advance at hr
  cases hphase : r.phase with
  | idle =>
    rw [hphase] at hr
    cases hr
  | statCert =>
    rw [hphase] at hr
    cases hr
    exact h.moved trivial
  | statKey cm =>
    rw [hphase] at hr
    cases hr
    unfold compare
    split
    · split_ifs
      · exact h.moved trivial
      · exact h.moved trivial
    · exact h.moved trivial
  | readCert =>
    rw [hphase] at hr
    dsimp only at hr
    split at hr
    case h_1 cert hcert =>
      cases hr
      exact h.moved ⟨cert, hcert, rfl⟩
    case h_2 =>
      cases hr
      exact h.moved trivial
  | readKey text =>
    rw [hphase] at hr hmid
    dsimp only at hr
    obtain ⟨cert, hcert, rfl⟩ := hmid
    split at hr
    case h_1 c hc =>
      obtain ⟨key, hkey, hpair⟩ := Option.bind_eq_some_iff.mp hc
      cases hr
      exact h.moved ⟨cert, hcert, key, hkey, hpair⟩
    case h_2 =>
      cases hr
      exact h.moved trivial
  | stampCert c =>
    rw [hphase] at hr hmid
    obtain ⟨cert, hcert, hrest⟩ := hmid
    cases hr
    exact h.moved ⟨cert, h.certFile cert hcert, (mtime_of_mem hcert).symm, hrest⟩
  | stampKey c cm =>
    rw [hphase] at hr hmid
    obtain ⟨cert, hcert, hcm, key, hkey, hpair⟩ := hmid
    cases hr
    refine ⟨h.certTimes, h.keyTimes, h.certFile, h.keyFile, fun l hl => ?_, trivial⟩
    cases hl
    exact ⟨cert, hcert, key, h.keyFile key hkey, hcm, (mtime_of_mem hkey).symm, hpair⟩

theorem Tracked.step {e : Event} (h : Tracked keyPair r) (hok : r.Undisturbed e)
    (hs : r.step keyPair reload e = some r') : Tracked keyPair r' := by
  cases e with
  | rotateCert file =>
    simp only [CertResolver.step, Option.ite_none_right_eq_some] at hs
    obtain ⟨hfile, hr⟩ := hs
    cases hr
    exact h.rotateCert hok hfile
  | rotateKey file =>
    simp only [CertResolver.step, Option.ite_none_right_eq_some] at hs
    obtain ⟨hfile, hr⟩ := hs
    cases hr
    exact h.rotateKey hok hfile
  | get =>
    simp only [CertResolver.step, Option.ite_none_right_eq_some] at hs
    obtain rfl := Option.some.inj hs.2
    exact h.get
  | advance => exact h.advance hs

theorem eq_of_mtime_eq {versions : List Pem} (h : (versions.map Pem.mtime).Nodup) {v w : Pem}
    (hv : v ∈ versions) (hw : w ∈ versions) (htime : v.mtime = w.mtime) : v = w :=
  List.inj_on_of_nodup_map h hv hw htime

theorem current_eq_some (h : r.current keyPair = some c) :
    ∃ cert ∈ r.certFile, ∃ key ∈ r.keyFile, keyPair cert.text key.text = some c := by
  obtain ⟨cert, hcert, hrest⟩ := Option.bind_eq_some_iff.mp h
  obtain ⟨key, hkey, hpair⟩ := Option.bind_eq_some_iff.mp hrest
  exact ⟨cert, hcert, key, hkey, hpair⟩

theorem load_returns (hphase : r.phase = .readCert) (hcurrent : r.current keyPair = some c) :
    ∃ r', exec (step keyPair true) r (List.replicate 4 .advance) = some r' ∧ r'.phase = .idle ∧
      r'.returned = some c := by
  obtain ⟨cert, hcert, key, hkey, hpair⟩ := current_eq_some hcurrent
  obtain ⟨certFile, keyFile, cache, phase, returned, certVersions, keyVersions⟩ := r
  obtain rfl : phase = .readCert := hphase
  obtain rfl : certFile = some cert := hcert
  obtain rfl : keyFile = some key := hkey
  refine ⟨⟨some cert, some key, some ⟨c, cert.mtime, key.mtime⟩, .idle, some c, certVersions,
    keyVersions⟩, ?_, rfl, rfl⟩
  simp only [List.replicate, exec_cons, exec_nil, step, advance, Option.bind_some, hpair]
  rfl

theorem Tracked.cached_eq (h : Tracked keyPair r) {cached : LoadedCert κ}
    (hcached : r.cache = some cached) (hcurrent : r.current keyPair = some c)
    (hcert : mtime r.certFile = cached.certMtime) (hkey : mtime r.keyFile = cached.keyMtime) :
    cached.cert = c := by
  obtain ⟨cert, hcert', key, hkey', hpair⟩ := current_eq_some hcurrent
  obtain ⟨cert₀, hcert₀, key₀, hkey₀, htime, htime', hpair₀⟩ := h.cache cached hcached
  rw [mtime_of_mem hcert', ← htime] at hcert
  rw [mtime_of_mem hkey', ← htime'] at hkey
  obtain rfl := eq_of_mtime_eq h.certTimes (h.certFile cert hcert') hcert₀ hcert
  obtain rfl := eq_of_mtime_eq h.keyTimes (h.keyFile key hkey') hkey₀ hkey
  exact Option.some.inj (hpair₀.symm.trans hpair)

theorem Tracked.get_returns (h : Tracked keyPair r) (hidle : r.phase = .idle)
    (hcurrent : r.current keyPair = some c) :
    ∃ k r', exec (CertResolver.step keyPair true) r (.get :: List.replicate k .advance) = some r' ∧
      r'.phase = .idle ∧ r'.returned = some c := by
  have hget : r.step keyPair true .get = some (r.get true) := by
    simp [CertResolver.step, hidle, Phase.isIdle]
  simp only [exec_cons, hget, Option.bind_some]
  cases hcache : r.cache with
  | none =>
    obtain ⟨r', hload, hdone⟩ := load_returns (r := { r with phase := .readCert }) rfl hcurrent
    have hread : r.get true = { r with phase := .readCert } := by simp only [CertResolver.get, hcache]
    exact ⟨4, r', by rwa [hread], hdone⟩
  | some cached =>
    have hstats : ∀ k,
        exec (CertResolver.step keyPair true) (r.get true) (List.replicate (2 + k) .advance) =
        exec (CertResolver.step keyPair true) (compare { r with phase := .statKey (mtime r.certFile) }
          (mtime r.certFile) (mtime r.keyFile)) (List.replicate k .advance) := by
      intro k
      rw [CertResolver.get, hcache, List.replicate_add]
      rfl
    by_cases hhit : mtime r.certFile = cached.certMtime ∧ mtime r.keyFile = cached.keyMtime ∧
      mtime r.certFile ≠ 0
    · refine ⟨2, { r with phase := .idle, returned := some cached.cert }, ?_, rfl, ?_⟩
      · rw [hstats 0]
        simp only [compare, hcache, if_pos hhit]
        rfl
      · exact congrArg some (h.cached_eq hcache hcurrent hhit.1 hhit.2.1)
    · obtain ⟨r', hload, hdone⟩ := load_returns (r := { r with phase := .readCert }) rfl hcurrent
      have hread : compare
          { r with phase := .statKey (mtime r.certFile) } (mtime r.certFile) (mtime r.keyFile) =
          { r with phase := .readCert } := by simp only [compare, hcache, if_neg hhit]
      exact ⟨2 + 4, r', by rwa [hstats 4, hread], hdone⟩

/-- In every run in which no file is replaced between its read and its stamp, a call that begins
when the files are a valid pair, and runs while they stay so, returns their certificate. -/
theorem reload_converges (keyPair : String → String → Option κ) (certFile keyFile : Option Pem)
    (es : List Event) (r : CertResolver κ)
    (hm : Meets (step keyPair true) Undisturbed (start certFile keyFile) es)
    (hr : exec (step keyPair true) (start certFile keyFile) es = some r) (hidle : r.phase = .idle)
    (c : κ) (hcurrent : r.current keyPair = some c) :
    ∃ k r', exec (step keyPair true) r (.get :: List.replicate k .advance) = some r' ∧
      r'.phase = .idle ∧
      r'.returned = some c := by
  have htracked : Tracked keyPair r :=
    exec_invariant (fun _ _ _ h hok hs => h.step hok hs) hm hr (start_tracked _ _)
  exact htracked.get_returns hidle hcurrent

/-- A certificate and a key belong together if their texts are the same, which then is the
certificate. -/
def sameText (cert key : String) : Option String := if cert = key then some cert else none

/-- Both files are replaced after they have been read and before they are stamped. -/
def rotatedAmidLoad : List Event :=
  [.get, .advance, .advance, .rotateCert (some ⟨"new", 2⟩), .rotateKey (some ⟨"new", 2⟩), .advance,
    .advance]

/-- The old certificate is stamped with the new times, and the next call returns it. -/
theorem stale_after_rotation :
    ((exec (step sameText true) (start (some ⟨"old", 1⟩) (some ⟨"old", 1⟩)) rotatedAmidLoad).map
      fun r =>
        (r.phase.isIdle, r.current sameText)) = some (true, some "new") ∧
      ((exec (step sameText true) (start (some ⟨"old", 1⟩) (some ⟨"old", 1⟩))
        (rotatedAmidLoad ++ [.get, .advance, .advance])).map fun r => (r.phase.isIdle, r.returned,
          r.current sameText)) =
        some (true, some "old", some "new") := by
  decide +kernel

def rotatedBetween : List Event :=
  [.get, .advance, .advance, .advance, .advance, .rotateCert (some ⟨"new", 2⟩),
    .rotateKey (some ⟨"new", 2⟩)]

theorem reload_converges_between :
    ∃ r k r', exec (step sameText true) (start (some ⟨"old", 1⟩) (some ⟨"old", 1⟩)) rotatedBetween =
      some r ∧
      exec (step sameText true) r (.get :: List.replicate k .advance) = some r' ∧
        r'.returned = some "new" := by
  have hrun :
      (exec (step sameText true) (start (some ⟨"old", 1⟩) (some ⟨"old", 1⟩)) rotatedBetween).map
      (fun r =>
      (r.phase.isIdle, r.current sameText)) = some (true, some "new") := by decide +kernel
  obtain ⟨r, hr, hvalues⟩ := Option.map_eq_some_iff.mp hrun
  obtain ⟨hidle, hcurrent⟩ := Prod.mk_inj.mp hvalues
  have hm : Meets (step sameText true) Undisturbed
      (start (some ⟨"old", 1⟩) (some ⟨"old", 1⟩)) rotatedBetween := by
    decide +kernel
  obtain ⟨k, r', hget, -, hreturned⟩ := reload_converges sameText _ _ rotatedBetween r hm hr
    (Phase.eq_idle_of_isIdle hidle) "new" hcurrent
  exact ⟨r, k, r', hr, hget, hreturned⟩

end CertResolver
end ReverseProxyLb.Tlsutil
