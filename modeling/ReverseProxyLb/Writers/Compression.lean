import ReverseProxyLb.Writers.Wrappers

/-! Until `Close` the compressing writer defers, passes the body through, or compresses it.
In each mode what the handler has written is in one place. -/
namespace ReverseProxyLb.Writers
open Lib

inductive GzipCall where
  | write (b : Bytes)
  | flush

namespace Compressor

def step (gzip : Compressor) (s : gzip.State × List Bytes) : GzipCall → gzip.State × List Bytes
  | .write b => ((gzip.write s.1 b).1, s.2 ++ (gzip.write s.1 b).2)
  | .flush => ((gzip.flush s.1).1, s.2 ++ (gzip.flush s.1).2)

def run (gzip : Compressor) (calls : List GzipCall) : gzip.State × List Bytes :=
  calls.foldl gzip.step (gzip.new, [])

def input (calls : List GzipCall) : Bytes :=
  calls.flatMap fun call => match call with
    | .write b => b
    | .flush => []

/-- What is written up to the end of `Close` decompresses to what was given. -/
def RoundTrips (gzip : Compressor) : Prop :=
  ∀ calls, gzip.decompress ((gzip.run calls).2 ++ gzip.close (gzip.run calls).1).flatten =
    some (input calls)

theorem run_append (gzip : Compressor) (calls : List GzipCall) (call : GzipCall) :
    gzip.run (calls ++ [call]) = gzip.step (gzip.run calls) call := by
  simp [run]

end Compressor

def Sends (log : List Received) (code : ℤ) (h : Header) (b : Bytes) : Prop :=
  ∃ rest, log = .status code h :: rest ∧ statuses rest = [] ∧ bodyOf rest = b

theorem Sends.bytes {log : List Received} {code : ℤ} {h : Header} {b : Bytes} (hs : Sends log code h b)
    (chunks : List Bytes) : Sends (log ++ chunks.map .bytes) code h (b ++ chunks.flatten) := by
  obtain ⟨rest, rfl, hstatuses, rfl⟩ := hs
  exact ⟨rest ++ chunks.map .bytes, rfl, by simp [hstatuses], by simp⟩

theorem Sends.flush
    {log : List Received} {code : ℤ} {h : Header} {b : Bytes} (hs : Sends log code h b) :
    Sends (log ++ [.flush]) code h b := by
  obtain ⟨rest, rfl, hstatuses, rfl⟩ := hs
  exact ⟨rest ++ [.flush], rfl, by simp [hstatuses], by simp⟩

theorem Sends.bodyOf_eq {log : List Received} {code : ℤ} {h : Header} {b : Bytes}
    (hs : Sends log code h b) :
    bodyOf log = b := by
  obtain ⟨rest, rfl, -, rfl⟩ := hs
  rfl

namespace GzipResponseWriter

variable {gzip : Compressor} {code : ℤ} {h : Header} {b : Bytes} {s : GzipResponseWriter gzip × Wire}

def after (s : GzipResponseWriter gzip × Wire) (r : GzipResponseWriter gzip × List WriterCall) :
    GzipResponseWriter gzip × Wire := (r.1, r.2.foldl Wire.take s.2)

def pass (s : GzipResponseWriter gzip × Wire) (o : WriterCall) : GzipResponseWriter gzip × Wire :=
  after s (s.1.call s.2.header o)

/-- The status is held back and the body is in the buffer. -/
structure Deferring (code : ℤ) (h : Header) (b : Bytes) (s : GzipResponseWriter gzip × Wire) :
    Prop where
  deferring : s.1.deferring = true
  wroteHeader : s.1.wroteHeader = false
  pendingCode : s.1.pendingCode = code
  buf : s.1.buf = b
  eligible : s.1.gzipEligiblePreBody h = true
  wire : s.2 = { header := h }

/-- The status and the body have been passed on. -/
structure Plain (code : ℤ) (h : Header) (b : Bytes) (s : GzipResponseWriter gzip × Wire) : Prop where
  deferring : s.1.deferring = false
  wroteHeader : s.1.wroteHeader = true
  useGzip : s.1.useGzip = false
  header : s.2.header = h
  sends : Sends s.2.log code h b

/-- The body has been given to the compressor. -/
structure Zipped (code : ℤ) (h : Header) (b : Bytes) (s : GzipResponseWriter gzip × Wire) : Prop where
  deferring : s.1.deferring = false
  wroteHeader : s.1.wroteHeader = true
  useGzip : s.1.useGzip = true
  header : s.2.header = compressed h
  calls : ∃ calls, s.1.gz = some (gzip.run calls).1 ∧ Compressor.input calls = b ∧
    Sends s.2.log code (compressed h) (gzip.run calls).2.flatten

theorem Plain.send (hp : Plain code h b s) (x : Bytes) :
    Plain code h (b ++ x) (after s (s.1.send x)) := by
  have hsend : s.1.send x = (s.1, [.write x]) := by simp [GzipResponseWriter.send, hp.useGzip]
  rw [hsend]
  refine ⟨hp.deferring, hp.wroteHeader, hp.useGzip, hp.header, ?_⟩
  simpa [after, Wire.take] using hp.sends.bytes [x]

theorem Zipped.send (hz : Zipped code h b s) (x : Bytes) :
    Zipped code h (b ++ x) (after s (s.1.send x)) := by
  obtain ⟨calls, hgz, rfl, hsends⟩ := hz.calls
  have hsend : s.1.send x = ({ s.1 with gz := some (gzip.write (gzip.run calls).1 x).1 },
      (gzip.write (gzip.run calls).1 x).2.map .write) := by
    simp [GzipResponseWriter.send, hz.useGzip, hgz]
  rw [hsend]
  unfold after
  rw [take_writes]
  refine ⟨hz.deferring, hz.wroteHeader, hz.useGzip, hz.header, calls ++ [.write x], ?_, ?_, ?_⟩
  · rw [Compressor.run_append]
    rfl
  · simp [Compressor.input]
  · rw [Compressor.run_append]
    simpa [Compressor.step] using hsends.bytes (gzip.write (gzip.run calls).1 x).2

theorem decide_modes {g : GzipResponseWriter gzip} (hdeferring : g.deferring = false)
    (hwrote : g.wroteHeader = false) (code : ℤ) (h : Header) :
    Plain code h [] (after (g, { header := h }) (g.decideAndWriteHeader h code)) ∨
      g.gzipEligiblePreBody h = true ∧
        Zipped code h [] (after (g, { header := h }) (g.decideAndWriteHeader h code)) := by
  have hplain : Plain code h [] (after (g, { header := h })
      ({ g with wroteHeader := true, useGzip := false }, [.writeHeader code])) :=
    ⟨hdeferring, rfl, rfl, rfl, [], rfl, rfl, rfl⟩
  unfold decideAndWriteHeader
  rw [if_neg (by simp [hwrote])]
  by_cases hcode : code = 101 ∨ code = 204 ∨ code = 304
  · rw [if_pos hcode]
    exact .inl hplain
  · rw [if_neg hcode]
    by_cases hencoding : h.get "Content-Encoding" ≠ ""
    · rw [if_pos hencoding]
      exact .inl hplain
    · rw [if_neg hencoding]
      by_cases htype : contentTypeAllowed g.allowTypes h = true
      · rw [if_neg (not_not.mpr htype)]
        refine .inr ⟨?_, hdeferring, rfl, rfl, rfl, [], rfl, rfl, [], rfl, rfl, rfl⟩
        rw [gzipEligiblePreBody, if_neg hencoding, htype]
      · rw [if_pos htype]
        exact .inl hplain

theorem after_append (s : GzipResponseWriter gzip × Wire) (g g' : GzipResponseWriter gzip)
    (out out' : List WriterCall) :
    after s (g', out ++ out') = after (after s (g, out)) (g', out') := by
  simp [after]

theorem Plain.clearBuf (hp : Plain code h b s) : Plain code h b ({ s.1 with buf := [] }, s.2) :=
  ⟨hp.deferring, hp.wroteHeader, hp.useGzip, hp.header, hp.sends⟩

theorem Zipped.clearBuf (hz : Zipped code h b s) : Zipped code h b ({ s.1 with buf := [] }, s.2) :=
  ⟨hz.deferring, hz.wroteHeader, hz.useGzip, hz.header, hz.calls⟩

theorem Deferring.commit (hd : Deferring code h b s) (gzipIt : Bool) :
    Plain code h b (after s (s.1.commit h gzipIt)) ∨
      gzipIt = true ∧ Zipped code h b (after s (s.1.commit h gzipIt)) := by
  obtain ⟨g, w⟩ := s
  obtain rfl : w = { header := h } := hd.wire
  obtain rfl : g.buf = b := hd.buf
  obtain rfl : g.pendingCode = code := hd.pendingCode
  rw [commit_eq g h gzipIt hd.deferring]
  dsimp only
  obtain ⟨decided, hdecided⟩ : ∃ decided, decided =
      if gzipIt then decideAndWriteHeader { g with deferring := false } h g.pendingCode
      else ({ g with deferring := false, wroteHeader := true, useGzip := false },
        [.writeHeader g.pendingCode]) :=
    ⟨_, rfl⟩
  rw [← hdecided]
  have hmodes : Plain g.pendingCode h [] (after (g, { header := h }) decided) ∨
      gzipIt = true ∧ Zipped g.pendingCode h [] (after (g, { header := h }) decided) := by
    cases gzipIt with
    | false =>
      rw [hdecided]
      exact .inl ⟨rfl, rfl, rfl, rfl, [], rfl, rfl, rfl⟩
    | true =>
      rw [hdecided]
      rcases decide_modes
        (g := { g with deferring := false }) rfl hd.wroteHeader g.pendingCode h with hp | ⟨-, hz⟩
      · exact .inl hp
      · exact .inr ⟨rfl, hz⟩
  by_cases hbuf : g.buf = []
  · rw [if_pos hbuf, hbuf]
    exact hmodes
  · rw [if_neg hbuf, after_append _ { decided.1 with buf := [] }]
    rcases hmodes with hp | ⟨hzip, hz⟩
    · exact .inl (hp.clearBuf.send g.buf)
    · exact .inr ⟨hzip, hz.clearBuf.send g.buf⟩

def Mode (minSize : ℤ) (code : ℤ) (h : Header) (b : Bytes) (flushed : Prop)
    (s : GzipResponseWriter gzip × Wire) :
    Prop :=
  s.1.minSize = minSize ∧ (Deferring code h b s ∧ (b.length : ℤ) < minSize ∨ Plain code h b s ∨
    Zipped code h b s ∧ (flushed ∨ minSize ≤ b.length))

variable {minSize : ℤ} {flushed : Prop}

theorem mode_writeHeader (g : GzipResponseWriter gzip) (hdeferring : g.deferring = false)
    (hwrote : g.wroteHeader = false) (hbuf : g.buf = []) (code : ℤ) (h : Header) :
    Mode g.minSize code h [] False (pass (g, { header := h }) (.writeHeader code)) := by
  change Mode g.minSize code h [] False (after (g, { header := h }) (g.writeHeader h code))
  unfold GzipResponseWriter.writeHeader
  split_ifs with hdefer
  · refine ⟨rfl, .inl ⟨⟨rfl, hwrote, rfl, hbuf, hdefer.2.2, rfl⟩, ?_⟩⟩
    simpa using hdefer.1
  · refine ⟨by simp [after], .inr ?_⟩
    rcases decide_modes hdeferring hwrote code h with hp | ⟨heligible, hz⟩
    · exact .inl hp
    · refine .inr ⟨hz, .inr ?_⟩
      simp only [hwrote, heligible, Bool.not_false, and_self, and_true, not_lt] at hdefer
      simpa using hdefer

theorem Mode.write (hm : Mode minSize code h b flushed s) (x : Bytes) :
    Mode minSize code h (b ++ x) flushed (pass s (.write x)) := by
  obtain ⟨hmin, ⟨hd, -⟩ | hp | ⟨hz, hwhy⟩⟩ := hm
  · obtain ⟨g, w⟩ := s
    obtain rfl : w = { header := h } := hd.wire
    have hdeferring : g.deferring = true := hd.deferring
    have hcall : g.call h (.write x) = g.writeDeferred h x := by
      simp [call, GzipResponseWriter.write, hdeferring]
    have hd' : Deferring code h (b ++ x) ({ g with buf := g.buf ++ x }, { header := h }) :=
      ⟨hd.deferring, hd.wroteHeader, hd.pendingCode, by rw [hd.buf], hd.eligible, rfl⟩
    change Mode minSize code h (b ++ x) flushed (after (g, { header := h }) (g.call h (.write x)))
    rw [hcall, writeDeferred, hd.buf]
    dsimp only at hmin ⊢
    rw [hmin]
    split_ifs with hshort
    · rw [hd.buf] at hd'
      exact ⟨hmin, .inl ⟨hd', hshort⟩⟩
    · rw [hd.buf] at hd'
      refine ⟨by simp [after, hmin], .inr ?_⟩
      rcases hd'.commit true with hp | ⟨-, hz⟩
      · exact .inl hp
      · exact .inr ⟨hz, .inr (not_lt.mp hshort)⟩
  · have hcall : s.1.call s.2.header (.write x) = s.1.send x := by
      simp [call, GzipResponseWriter.write, hp.deferring, hp.wroteHeader]
    rw [pass, hcall]
    exact ⟨by simp [after, hmin], .inr (.inl (hp.send x))⟩
  · have hcall : s.1.call s.2.header (.write x) = s.1.send x := by
      simp [call, GzipResponseWriter.write, hz.deferring, hz.wroteHeader]
    rw [pass, hcall]
    refine ⟨by simp [after, hmin], .inr (.inr ⟨hz.send x, hwhy.imp_right fun hle => ?_⟩)⟩
    rw [List.length_append]
    omega

theorem Plain.flushGzip (hp : Plain code h b s) :
    Plain code h b (after s (s.1.flushGzip.1, s.1.flushGzip.2 ++ [.flush])) := by
  have hflush : s.1.flushGzip = (s.1, []) := by simp [GzipResponseWriter.flushGzip, hp.useGzip]
  rw [hflush]
  exact ⟨hp.deferring, hp.wroteHeader, hp.useGzip, hp.header, hp.sends.flush⟩

theorem Zipped.flushGzip (hz : Zipped code h b s) :
    Zipped code h b (after s (s.1.flushGzip.1, s.1.flushGzip.2 ++ [.flush])) := by
  obtain ⟨calls, hgz, rfl, hsends⟩ := hz.calls
  have hflush : s.1.flushGzip = ({ s.1 with gz := some (gzip.flush (gzip.run calls).1).1 },
      (gzip.flush (gzip.run calls).1).2.map .write) := by
    simp [GzipResponseWriter.flushGzip, hz.useGzip, hgz]
  rw [hflush, after_append _ { s.1 with gz := some (gzip.flush (gzip.run calls).1).1 }]
  unfold after
  rw [take_writes]
  refine ⟨hz.deferring, hz.wroteHeader, hz.useGzip, hz.header, calls ++ [.flush], ?_, ?_, ?_⟩
  · rw [Compressor.run_append]
    rfl
  · simp [Compressor.input]
  · rw [Compressor.run_append]
    simpa [Compressor.step, Wire.take] using (hsends.bytes (gzip.flush (gzip.run calls).1).2).flush

theorem Mode.flush (hm : Mode minSize code h b flushed s) :
    Mode minSize code h b True (pass s .flush) := by
  obtain ⟨hmin, ⟨hd, -⟩ | hp | ⟨hz, -⟩⟩ := hm
  · obtain ⟨g, w⟩ := s
    obtain rfl : w = { header := h } := hd.wire
    have hdeferring : g.deferring = true := hd.deferring
    have hcall : g.call h .flush = ((g.commit h true).1.flushGzip.1,
        (g.commit h true).2 ++ ((g.commit h true).1.flushGzip.2 ++ [.flush])) := by
      simp [call, GzipResponseWriter.flush, hdeferring]
    change Mode minSize code h b True (after (g, { header := h }) (g.call h .flush))
    rw [hcall, after_append _ (g.commit h true).1]
    refine ⟨by simpa [after] using hmin, .inr ?_⟩
    rcases hd.commit true with hp | ⟨-, hz⟩
    · exact .inl hp.flushGzip
    · exact .inr ⟨hz.flushGzip, .inl trivial⟩
  · have hcall : s.1.call s.2.header .flush = (s.1.flushGzip.1, s.1.flushGzip.2 ++ [.flush]) := by
      simp [call, GzipResponseWriter.flush, hp.deferring]
    rw [pass, hcall]
    exact ⟨by simp [after, hmin], .inr (.inl hp.flushGzip)⟩
  · have hcall : s.1.call s.2.header .flush = (s.1.flushGzip.1, s.1.flushGzip.2 ++ [.flush]) := by
      simp [call, GzipResponseWriter.flush, hz.deferring]
    rw [pass, hcall]
    exact ⟨by simp [after, hmin], .inr (.inr ⟨hz.flushGzip, .inl trivial⟩)⟩

/-- What the writer below has received in the end. -/
structure Delivered (code : ℤ) (h : Header) (b : Bytes) (s : GzipResponseWriter gzip × Wire) :
    Prop where
  sends : ∃ bytes, Sends s.2.log code s.2.header bytes
  plain : s.1.useGzip = false → s.2.header = h ∧ bodyOf s.2.log = b
  zipped : s.1.useGzip = true → s.2.header = compressed h ∧ gzip.decompress (bodyOf s.2.log) = some b

theorem Plain.closed (hp : Plain code h b s) :
    Delivered code h b (after s (s.1, s.1.closeGzip ++ [.close])) := by
  have hclose : s.1.closeGzip = [] := by simp [closeGzip, hp.useGzip]
  rw [hclose]
  refine ⟨⟨b, ?_⟩, fun _ => ⟨hp.header, hp.sends.bodyOf_eq⟩, fun huse => ?_⟩
  · change Sends s.2.log code s.2.header b
    rw [hp.header]
    exact hp.sends
  · rw [after, hp.useGzip] at huse
    cases huse

theorem Zipped.closed (hgzip : gzip.RoundTrips) (hz : Zipped code h b s) :
    Delivered code h b (after s (s.1, s.1.closeGzip ++ [.close])) := by
  obtain ⟨calls, hgz, rfl, hsends⟩ := hz.calls
  have hclose : s.1.closeGzip = (gzip.close (gzip.run calls).1).map .write := by
    simp [closeGzip, hz.useGzip, hgz]
  rw [hclose, after_append _ s.1]
  unfold after
  rw [take_writes]
  have hall := hsends.bytes (gzip.close (gzip.run calls).1)
  refine ⟨⟨(gzip.run calls).2.flatten ++ (gzip.close (gzip.run calls).1).flatten, ?_⟩, fun huse => ?_,
    fun _ => ⟨hz.header, ?_⟩⟩
  · change Sends _ code s.2.header _
    rw [hz.header]
    exact hall
  · rw [hz.useGzip] at huse
    cases huse
  · change gzip.decompress (bodyOf (s.2.log ++ _)) = _
    rw [hall.bodyOf_eq, ← List.flatten_append]
    exact hgzip calls

theorem Mode.close (hgzip : gzip.RoundTrips) (hm : Mode minSize code h b flushed s) :
    Delivered code h b (pass s .close) ∧
      (¬ flushed → (b.length : ℤ) < minSize → (pass s .close).1.useGzip = false) := by
  obtain ⟨hmin, ⟨hd, -⟩ | hp | ⟨hz, hwhy⟩⟩ := hm
  · obtain ⟨g, w⟩ := s
    obtain rfl : w = { header := h } := hd.wire
    have hdeferring : g.deferring = true := hd.deferring
    have hcall : g.call h .close = ((g.commit h false).1,
        (g.commit h false).2 ++ ((g.commit h false).1.closeGzip ++ [.close])) := by
      simp [call, GzipResponseWriter.close, hdeferring]
    have hp : Plain code h b (after (g, { header := h }) (g.commit h false)) := by
      rcases hd.commit false with hp | ⟨hzip, -⟩
      · exact hp
      · cases hzip
    change Delivered code h b (after (g, { header := h }) (g.call h .close)) ∧
      (_ → _ → (after (g, { header := h }) (g.call h .close)).1.useGzip = false)
    rw [hcall, after_append _ (g.commit h false).1]
    exact ⟨hp.closed, fun _ _ => hp.useGzip⟩
  · have hcall : s.1.call s.2.header .close = (s.1, s.1.closeGzip ++ [.close]) := by
      simp [call, GzipResponseWriter.close, hp.deferring]
    rw [pass, hcall]
    exact ⟨hp.closed, fun _ _ => hp.useGzip⟩
  · have hcall : s.1.call s.2.header .close = (s.1, s.1.closeGzip ++ [.close]) := by
      simp [call, GzipResponseWriter.close, hz.deferring]
    rw [pass, hcall]
    refine ⟨hz.closed hgzip, fun hflush hshort => ?_⟩
    rcases hwhy with hflushed | hle
    · exact (hflush hflushed).elim
    · exact (not_lt.mpr hle hshort).elim

end GzipResponseWriter

/-- What a handler does after its `WriteHeader`. -/
inductive BodyCall where
  | write (b : Bytes)
  | flush

namespace BodyCall

def toCall : BodyCall → WriterCall
  | .write b => .write b
  | .flush => .flush

def written (body : List BodyCall) : Bytes :=
  body.flatMap fun call => match call with
    | .write b => b
    | .flush => []

def isFlush : BodyCall → Bool
  | .write _ => false
  | .flush => true

end BodyCall

open BodyCall GzipResponseWriter

variable {gzip : Compressor}

theorem feedAll_gzip (g : GzipResponseWriter gzip) (w : Wire) (os : List WriterCall) :
    Stack.feedAll ([Layer.gzip g], w) os =
      ([Layer.gzip (os.foldl pass (g, w)).1], (os.foldl pass (g, w)).2) := by
  have hpass : ∀ (os : List WriterCall) (s : GzipResponseWriter gzip × Wire),
      os.foldl (Layers.single Layer.call Wire.take) (Layer.gzip s.1, s.2) =
        (Layer.gzip (os.foldl pass s).1, (os.foldl pass s).2) := by
    intro os
    induction os with
    | nil => exact fun s => rfl
    | cons o os ih => exact fun s => ih (pass s o)
  rw [Stack.feedAll, Layers.feedAll_singleton, hpass os (g, w)]

theorem mode_mono {minSize code : ℤ} {h : Header} {b : Bytes} {flushed flushed' : Prop}
    {s : GzipResponseWriter gzip × Wire} (hm : Mode minSize code h b flushed s)
    (himp : flushed → flushed') :
    Mode minSize code h b flushed' s := by
  obtain ⟨hmin, hd | hp | ⟨hz, hwhy⟩⟩ := hm
  · exact ⟨hmin, .inl hd⟩
  · exact ⟨hmin, .inr (.inl hp)⟩
  · exact ⟨hmin, .inr (.inr ⟨hz, hwhy.imp_left himp⟩)⟩

theorem mode_body {minSize code : ℤ} {h : Header} {b : Bytes} {flushed : Prop}
    {s : GzipResponseWriter gzip × Wire} (body : List BodyCall)
      (hm : Mode minSize code h b flushed s) :
    Mode minSize code h (b ++ written body) (flushed ∨ ∃ call ∈ body, call.isFlush = true)
      ((body.map toCall).foldl pass s) := by
  induction body generalizing b flushed s with
  | nil =>
    rw [written, List.flatMap_nil, List.append_nil]
    exact mode_mono hm .inl
  | cons call body ih =>
    cases call with
    | write x =>
      have hwritten : b ++ written (.write x :: body) = b ++ x ++ written body := by simp [written]
      rw [hwritten]
      apply mode_mono (ih (hm.write x))
      rintro (hf | ⟨call, hcall, hflush⟩)
      · exact .inl hf
      · exact .inr ⟨call, List.mem_cons_of_mem _ hcall, hflush⟩
    | flush =>
      have hwritten : b ++ written (.flush :: body) = b ++ written body := by simp [written]
      rw [hwritten]
      exact mode_mono (ih hm.flush) fun _ => .inr ⟨.flush, List.mem_cons_self .., rfl⟩

theorem get_compressed (h : Header) : (compressed h).get "Content-Encoding" = "gzip" := by
  have hvary : Text.canonicalHeaderKey "Content-Encoding" ≠ Text.canonicalHeaderKey "Vary" := by decide
  simp [compressed, Header.get, Header.values, Header.add, Header.set, hvary]

theorem contentLength_compressed (h : Header) : (compressed h).values "Content-Length" = [] := by
  have hvary : Text.canonicalHeaderKey "Content-Length" ≠ Text.canonicalHeaderKey "Vary" := by decide
  have hencoding : Text.canonicalHeaderKey "Content-Length" ≠
      Text.canonicalHeaderKey "Content-Encoding" := by decide
  simp [compressed, Header.values, Header.add, Header.set, Header.del, hvary, hencoding]

/-- The writer below receives one status before anything else; if the response is compressed the
bytes decompress to the body, and otherwise body and header are the handler's; and a body below
the threshold that is not flushed is not compressed. -/
theorem compression_round_trip (gzip : Compressor) (hgzip : gzip.RoundTrips)
    (policy : CompressionPolicy) (h : Header) (code : ℤ) (body : List BodyCall) :
    ∃ (g : GzipResponseWriter gzip) (w : Wire),
      Stack.feedAll ([Layer.gzip { toCompressionPolicy := policy }], { header := h })
        (.writeHeader code :: body.map toCall ++ [.close]) = ([Layer.gzip g], w) ∧
      (∃ rest, w.log = .status code w.header :: rest ∧ statuses rest = []) ∧
      (g.useGzip = true → w.header = compressed h ∧ w.header.get "Content-Encoding" = "gzip" ∧
        w.header.values "Content-Length" = [] ∧ gzip.decompress (bodyOf w.log) = some (written body)) ∧
      (g.useGzip = false → w.header = h ∧ bodyOf w.log = written body) ∧
      ((∀ call ∈ body, call.isFlush = false) → ((written body).length : ℤ) < policy.minSize →
        g.useGzip = false) := by
  have hstart : Mode policy.minSize code h [] False
      (pass (({ toCompressionPolicy := policy } : GzipResponseWriter gzip), { header := h })
        (.writeHeader code)) :=
    mode_writeHeader _ rfl rfl rfl code h
  have hmode := mode_body body hstart
  rw [List.nil_append] at hmode
  obtain ⟨hdelivered, hshort⟩ := hmode.close hgzip
  rw [feedAll_gzip, List.foldl_append, List.foldl_cons, List.foldl_cons, List.foldl_nil]
  refine ⟨_, _, rfl, ?_, fun huse => ?_, hdelivered.plain, fun hflush => hshort ?_⟩
  · obtain ⟨bytes, rest, hlog, hstatuses, -⟩ := hdelivered.sends
    exact ⟨rest, hlog, hstatuses⟩
  · obtain ⟨hheader, hdecompress⟩ := hdelivered.zipped huse
    rw [hheader]
    exact ⟨rfl, get_compressed h, contentLength_compressed h, hdecompress⟩
  · rintro (hfalse | ⟨call, hcall, hflushed⟩)
    · exact hfalse
    · rw [hflush call hcall] at hflushed
      cases hflushed

/-- A compressor that keeps the bytes as they are, up to a first byte, and writes them at the end. -/
def stored : Compressor where
  State := Bytes
  new := []
  write s b := (s ++ b, [])
  flush s := (s, [])
  close s := [31 :: s]
  decompress b := b.tail?

theorem stored_roundTrips : stored.RoundTrips := by
  have hrun : ∀ calls, stored.run calls = (Compressor.input calls, []) := by
    intro calls
    induction calls using List.reverseRecOn with
    | nil => rfl
    | append_singleton calls call ih =>
      rw [Compressor.run_append, ih]
      cases call <;> simp [Compressor.step, Compressor.input, stored]
  intro calls
  rw [hrun]
  simp [stored]

def textPolicy : CompressionPolicy where
  allowTypes := ["text/"]
  minSize := 3

def textHeader : Header := fun key =>
  if key = "Content-Type" then ["text/html; charset=utf-8"] else if key = "Content-Length" then ["6"]
    else []

/-- A body that reaches the threshold with its second write and is flushed after it, and one below
the threshold. -/
theorem compression_round_trip_text :
    (∃ (g : GzipResponseWriter stored) (w : Wire),
      Stack.feedAll ([Layer.gzip { toCompressionPolicy := textPolicy }], { header := textHeader })
        [.writeHeader 200, .write [1, 2], .write [3, 4, 5], .flush, .write [6], .close] =
          ([Layer.gzip g], w) ∧
      g.useGzip = true ∧ w.header.values "Content-Length" = [] ∧
        bodyOf w.log = [31, 1, 2, 3, 4, 5, 6] ∧
      stored.decompress (bodyOf w.log) = some [1, 2, 3, 4, 5, 6]) ∧
    ∃ (g : GzipResponseWriter stored) (w : Wire),
      Stack.feedAll ([Layer.gzip { toCompressionPolicy := textPolicy }], { header := textHeader })
        [.writeHeader 200, .write [1], .write [2], .close] = ([Layer.gzip g], w) ∧
      g.useGzip = false ∧ bodyOf w.log = [1, 2] := by
  constructor
  · obtain ⟨g, w, hrun, -, hzipped, -, -⟩ :=
      compression_round_trip stored stored_roundTrips textPolicy textHeader
      200 [.write [1, 2], .write [3, 4, 5], .flush, .write [6]]
    have huse : g.useGzip = true ∧ bodyOf w.log = [31, 1, 2, 3, 4, 5, 6] := by
      injection hrun with hstack hwire
      injection hstack with hlayer
      injection hlayer with hg
      subst hg hwire
      decide +kernel
    obtain ⟨-, -, hlength, hbody⟩ := hzipped huse.1
    exact ⟨g, w, hrun, huse.1, hlength, huse.2, hbody⟩
  · obtain ⟨g, w, hrun, -, -, hplain, hshort⟩ :=
      compression_round_trip stored stored_roundTrips textPolicy textHeader
      200 [.write [1], .write [2]]
    have huse : g.useGzip = false := hshort (by simp [isFlush]) (by decide)
    exact ⟨g, w, hrun, huse, (hplain huse).2⟩

end ReverseProxyLb.Writers
