import ReverseProxyLb.Lib.Tape
import ReverseProxyLb.Proxy.Request

/-! All attempts of a request read from the body it came with, and each closes it when it is
over. Beside the programs of the request the attempts under way read as much as they like.
-/
namespace ReverseProxyLb.Proxy
open Lib

/-- The server gives a stream; the mirror puts the beginning into memory, or all of a small body,
which then cannot be closed. An unknown length is `-1`. -/
structure Body where
  source : Source UInt8
  contentLength : ℤ
  length : 0 ≤ contentLength → contentLength = source.content.length

/-- `ReverseProxy` drops the body of a request whose length is zero. -/
def Body.Dropped (body : Body) : Prop := body.contentLength = 0

instance (body : Body) : Decidable body.Dropped := inferInstanceAs (Decidable (_ = _))

/-- The attempt begins once the cached reverse proxy is found, and ends when `ServeHTTP` returns
or panics. -/
def Body.use (body : Body) (who : Option ℕ) : Happening → Option (Use (Option ℕ))
  | .env (.proxyFor _) none => if body.Dropped then none else some (.start who)
  | .env (.serveHTTP _ _) _ => if body.Dropped then none else some (.finish who)
  | _ => none

/-- The threads of a request and its body, with the uses that were made of it. -/
structure Upload where
  pool : Pool Op Ans Backend HedgeResult Unit
  tape : Tape UInt8 (Option ℕ)
  uses : List (Use (Option ℕ)) := []

inductive UploadLabel where
  | pool (l : Label Op Ans)
  /-- The attempt of a thread reads from the body. -/
  | read (who : Option ℕ) (n : ℕ)

namespace Upload

variable (p : Settings) (body : Body)

def start (group : List Backend) (r : Request) (primary : Backend) : Upload where
  pool := { main := proxyRequest p group r primary }
  tape := { source := body.source }

def apply (s : Upload) (u : Use (Option ℕ)) : Option Upload :=
  (s.tape.step u).map fun tape => { s with
    tape := tape
    uses := s.uses ++ [u] }

def event (s : Upload) (pool : Pool Op Ans Backend HedgeResult Unit) :
    Option (Entry Op Ans Backend HedgeResult) :=
  pool.log[s.pool.log.length]?

def step (s : Upload) : UploadLabel → Option Upload
  | .pool l => (Pool.step (hedgeAttempt p) s.pool l).bind fun pool =>
    match (s.event pool).bind fun x => body.use x.1 x.2 with
    | none => some { s with pool := pool }
    | some u => { s with pool := pool }.apply u
  | .read who n => s.apply (.read who n)

def Begins (s : Upload) (l : UploadLabel) : Prop :=
  ∃ s' who b, s.step p body l = some s' ∧ s.event s'.pool = some (who, .env (.proxyFor b) none)

/-- What the reader of an attempt that begins now yields, `none` for an error. -/
def given (s : Upload) : Option (List UInt8) := if body.Dropped then some [] else s.tape.yields

/-- An attempt that begins here is given the whole body, and no other one that is under way
reads from it. -/
def Whole (s : Upload) : Prop :=
  s.given body = some body.source.content ∧ (body.Dropped ∨ s.tape.readers = [])

def Ready (s : Upload) : Prop := body.Dropped ∨ s.tape.Untouched body.source s.uses

end Upload

variable {p : Settings} {body : Body} {s s' : Upload}

theorem Body.content_of_dropped (h : body.Dropped) : body.source.content = [] := by
  have hlen := body.length (by rw [h])
  rw [h] at hlen
  exact List.length_eq_zero_iff.mp (by omega)

theorem saw_apply {u : Use (Option ℕ)} (h : s.tape.Saw body.source s.uses) (hs : s.apply u = some s') :
    s'.tape.Saw body.source s'.uses := by
  obtain ⟨tape, htape, rfl⟩ := Option.map_eq_some_iff.mp hs
  exact h.step htape

theorem saw_step {l : UploadLabel} (h : s.tape.Saw body.source s.uses)
    (hs : s.step p body l = some s') :
    s'.tape.Saw body.source s'.uses := by
  cases l with
  | pool l =>
    obtain ⟨pool, -, hpool⟩ := Option.bind_eq_some_iff.mp hs
    split at hpool
    · cases hpool
      exact h
    · exact saw_apply (s := { s with pool := pool }) h hpool
  | read who n => exact saw_apply h hs

theorem whole_iff_ready (h : s.tape.Saw body.source s.uses) : s.Whole body ↔ s.Ready body := by
  unfold Upload.Whole Upload.Ready Upload.given
  by_cases hd : body.Dropped
  · simp [hd, Body.content_of_dropped hd]
  · rw [if_neg hd]
    simpa [hd] using h.whole_iff

/-- Each attempt is given the whole body and shares it with no other one exactly if each begins on
a body that is still untouched. -/
theorem attempts_get_whole_body_iff (p : Settings) (group : List Backend) (r : Request)
    (primary : Backend) (body : Body) (ls : List UploadLabel) :
    Meets (Upload.step p body) (fun s l => s.Begins p body l → s.Whole body)
        (Upload.start p body group r primary) ls ↔
      Meets (Upload.step p body) (fun s l => s.Begins p body l → s.Ready body)
        (Upload.start p body group r primary) ls := by
  have hstart : (Upload.start p body group r primary).tape.Saw body.source
      (Upload.start p body group r primary).uses := Tape.saw_start body.source
  exact meets_congr (fun _ _ _ hs hstep => saw_step hs hstep)
    (fun s l hs => imp_congr_right fun _ => whole_iff_ready hs) hstart

def streamed : Body where
  source := { stream := some [120] }
  contentLength := 1
  length _ := rfl

def peerA : Backend := { addr := 0, url := "http://a" }
def peerB : Backend := { addr := 1, url := "http://b" }

def asks (o : Op) (a : Ans o) : UploadLabel := .pool (.main (.answer o a))

/-- The first backend refuses the connection, and the loop turns to the second. -/
def refusedOnce : List UploadLabel :=
  [asks (.note (.visit peerA)) (), asks (.count .retryReqs) (), asks (.recordBackendRequest peerA) (),
    asks (.proxyFor peerA) none,
      asks (.serveHTTP .client peerA) (.served (some { dial := true }) false 0 0),
    asks (.count (.backendLatency peerA)) (), asks (.count (.backendError peerA)) (),
    asks (.decrConn peerA) (), asks (.observeOutcome peerA false) (), asks .getHealthy [peerA, peerB],
    asks (.incrConn peerB) (), asks (.note (.visit peerB)) (), asks (.count .retryReqs) (),
    asks (.recordBackendRequest peerB) ()]

def hedging : Settings where
  retryConfig := { hedge := { enabled := true, maxExtra := 1 } }

def attemptAsks (i : ℕ) (o : Op) (a : Ans o) : UploadLabel := .pool (.spawned i (.answer o a))

/-- The hedge timer fires while the primary attempt is under way. -/
def hedgedOnce : List UploadLabel :=
  [asks .getHealthy [peerA, peerB], asks (.incrConn peerB) (), .pool (.main .go),
    attemptAsks 0 (.recordBackendRequest peerA) (), attemptAsks 0 (.proxyFor peerA) none,
    .pool (.main .timeout), asks (.count .hedged) (), .pool (.main .go),
    attemptAsks 1 (.recordBackendRequest peerB) ()]

/-- The failover of a `POST` whose first backend was never reached gets a closed body, and a hedge
of a `PUT` begins where the primary attempt is reading. -/
theorem later_attempts_miss_body :
    (∃ s, exec (Upload.step {} streamed)
      (Upload.start {} streamed [peerA, peerB] { method := "POST" } peerA)
        refusedOnce = some s ∧
      s.Begins {} streamed (asks (.proxyFor peerB) none) ∧ s.given streamed = none) ∧
    ∃ s, exec (Upload.step hedging streamed)
        (Upload.start hedging streamed [peerA, peerB] { method := "PUT" } peerA) hedgedOnce = some s ∧
      s.Begins hedging streamed (attemptAsks 1 (.proxyFor peerB) none) ∧
        s.tape.readers = [some 0] := by
  constructor
  · exact ⟨_, rfl, ⟨_, none, peerB, rfl, rfl⟩, rfl⟩
  · exact ⟨_, rfl, ⟨_, some 1, peerB, rfl, rfl⟩, rfl⟩

end ReverseProxyLb.Proxy
