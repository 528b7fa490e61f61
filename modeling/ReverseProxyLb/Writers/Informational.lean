import ReverseProxyLb.Writers.Compression

/-! A handler may send any number of `1xx` statuses before the final one. Each wrapper takes
the first status it is told for the final one. -/
namespace ReverseProxyLb.Writers
open Lib

variable {gz : Compressor}

def Informational (code : ℤ) : Prop := 100 ≤ code ∧ code < 200 ∧ code ≠ 101

/-- The informational statuses, each after an edit of the header, the final one and the writes. -/
structure Response where
  informational : List ((Header → Header) × ℤ) := []
  edit : Header → Header := id
  code : ℤ
  writes : List Bytes := []
  hints : ∀ hint ∈ informational, Informational hint.2
  final : ¬ Informational code

namespace Response

def hintCalls (r : Response) : List WriterCall :=
  r.informational.flatMap fun hint => [.edit hint.1, .writeHeader hint.2]

def finalCalls (r : Response) : List WriterCall :=
  .writeHeader r.code :: (r.writes.map .write ++ [.close])

end Response

namespace Layer

def recorded : Layer gz → Option ℤ
  | .cache c => some c.status
  | .capture c => some c.statusCode
  | .access c => some c.status
  | .gzip _ => none
  | .rewrite _ => none

def wrote : Layer gz → Bool
  | .capture c => c.wrote
  | _ => false

def Edits : Layer gz → Header → Header → Prop
  | .rewrite r => fun h h' => h' = r.applyHeaders h
  | .gzip _ => fun h h' => h' = h ∨ h' = compressed h
  | _ => fun h h' => h' = h

def Fresh : Layer gz → Prop
  | .cache c => c.wroteHeader = false
  | .gzip g => g.wroteHeader = false ∧ g.deferring = false
  | .rewrite r => r.wroteHeader = false
  | .capture c => c.wrote = false
  | .access c => c.wroteHeader = false

end Layer

def Edited : List (Header → Header → Prop) → Header → Header → Prop
  | [], h, h' => h' = h
  | e :: es, h, h' => ∃ mid, e h mid ∧ Edited es mid h'

/-- After the hints nothing counts as written. The writer at the bottom receives the final status,
with the header of the handler as the wrappers edit it, and they have recorded that status. -/
structure Transparent (ls : List (Layer gz)) (h : Header) (r : Response) : Prop where
  unwritten : ∀ l ∈ (Stack.feedAll (ls, { header := h }) r.hintCalls).1, l.wrote = false
  received : ∃ header, (r.code, header) ∈
      statuses (Stack.feedAll (ls, { header := h })
        (r.hintCalls ++ .edit r.edit :: r.finalCalls)).2.log ∧
    Edited (ls.map Layer.Edits)
      (Stack.feedAll (ls, { header := h }) (r.hintCalls ++ [.edit r.edit])).2.header header
  recorded :
    ∀ l ∈ (Stack.feedAll (ls, { header := h }) (r.hintCalls ++ .edit r.edit :: r.finalCalls)).1,
    ∀ status ∈ l.recorded, status = r.code

namespace Layer

def Latched (code : ℤ) : Layer gz → Prop
  | .cache c => c.wroteHeader = true ∧ c.status = code
  | .gzip g => g.wroteHeader = true ∧ g.deferring = false
  | .rewrite r => r.wroteHeader = true
  | .capture c => c.wrote = true ∧ c.statusCode = code
  | .access c => c.wroteHeader = true ∧ c.status = code

theorem recorded_of_latched {l : Layer gz} {code : ℤ} (hl : l.Latched code) :
    ∀ status ∈ l.recorded, status = code := by
  intro status hstatus
  cases l with
  | cache c => exact (Option.some.inj hstatus).symm.trans hl.2
  | capture c => exact (Option.some.inj hstatus).symm.trans hl.2
  | access c => exact (Option.some.inj hstatus).symm.trans hl.2
  | gzip g => cases hstatus
  | rewrite r => cases hstatus

theorem wrote_of_fresh {l : Layer gz} (hl : l.Fresh) : l.wrote = false := by
  cases l with
  | capture c => exact hl
  | _ => rfl

@[simp] theorem call_edit (l : Layer gz) (w : Wire) (f : Header → Header) :
    l.call w (.edit f) = (l, [.edit f]) := by
  cases l <;> rfl

theorem call_edits (l : Layer gz) (w : Wire) (o : WriterCall) : (l.call w o).1.Edits = l.Edits := by
  cases l with
  | rewrite r =>
    have happly : (r.call o).1.applyHeaders = r.applyHeaders := by
      cases o <;> simp only [RewriteResponseWriter.call] <;> (try split_ifs) <;> rfl
    change (fun h h' => h' = (r.call o).1.applyHeaders h) = fun h h' => h' = r.applyHeaders h
    rw [happly]
  | _ => rfl

end Layer

@[simp] theorem feed_edit (ls : List (Layer gz)) (w : Wire) (f : Header → Header) :
    Stack.feed (ls, w) (.edit f) = (ls, { w with header := f w.header }) := by
  induction ls with
  | nil => rfl
  | cons l ls ih =>
    rw [Stack.feed, Layers.feed_cons, Layer.call_edit]
    change (l :: (Stack.feed (ls, w) (.edit f)).1, (Stack.feed (ls, w) (.edit f)).2) = _
    rw [ih]

def Forwards (l l' : Layer gz) (h : Header) (code : ℤ) (out : List WriterCall) : Prop :=
  l'.Latched code ∧ ∃ h' : Header, l.Edits h h' ∧ ∀ ls : List (Layer gz),
    Stack.feedAll (ls, { header := h }) out = Stack.feed (ls, { header := h' }) (.writeHeader code)

/-- A compressing wrapper that holds the status back. -/
structure Held (g : GzipResponseWriter gz) (code : ℤ) : Prop where
  deferring : g.deferring = true
  wroteHeader : g.wroteHeader = false
  pendingCode : g.pendingCode = code

section Gzip
open GzipResponseWriter

variable {g : GzipResponseWriter gz} {code : ℤ}

theorem decide_forwards (hwrote : g.wroteHeader = false) (hdeferring : g.deferring = false)
    (h : Header) (code : ℤ) :
    Forwards (.gzip g) (.gzip (g.decideAndWriteHeader h code).1) h code
      (g.decideAndWriteHeader h code).2 := by
  have hplain : Forwards (.gzip g) (.gzip { g with wroteHeader := true, useGzip := false }) h code
      [.writeHeader code] := ⟨⟨rfl, hdeferring⟩, h, .inl rfl, fun ls => rfl⟩
  have hzipped : Forwards
      (.gzip g) (.gzip { g with wroteHeader := true, useGzip := true, gz := some gz.new }) h code
      [.edit compressed, .writeHeader code] := by
    refine ⟨⟨rfl, hdeferring⟩, compressed h, .inr rfl, fun ls => ?_⟩
    change Stack.feed (Stack.feed (ls, { header := h }) (.edit compressed)) (.writeHeader code) = _
    rw [feed_edit]
  unfold decideAndWriteHeader
  rw [if_neg (by simp [hwrote])]
  split_ifs
  · exact hplain
  · exact hplain
  · exact hzipped
  · exact hplain

theorem send_writes (g : GzipResponseWriter gz) (b : Bytes) :
    (g.send b).1.wroteHeader = g.wroteHeader ∧
    (g.send b).1.deferring = g.deferring ∧
      ∃ chunks : List Bytes, (g.send b).2 = chunks.map .write := by
  unfold send
  split_ifs
  · split
    · exact ⟨rfl, rfl, _, rfl⟩
    · exact ⟨rfl, rfl, [], rfl⟩
  · exact ⟨rfl, rfl, [b], rfl⟩

theorem closeGzip_writes (g : GzipResponseWriter gz) :
    ∃ chunks : List Bytes, g.closeGzip = chunks.map .write := by
  unfold closeGzip
  split_ifs
  · split
    · exact ⟨_, rfl⟩
    · exact ⟨[], rfl⟩
  · exact ⟨[], rfl⟩

theorem Held.commit (hg : Held g code) (h : Header) (gzipIt : Bool) :
    ∃ (out : List WriterCall) (chunks : List Bytes),
    (g.commit h gzipIt).2 = out ++ chunks.map .write ∧
      Forwards (.gzip g) (.gzip (g.commit h gzipIt).1) h code out := by
  obtain rfl := hg.pendingCode
  rw [commit_eq g h gzipIt hg.deferring]
  dsimp only
  obtain ⟨decided, hdecided⟩ : ∃ decided, decided =
      if gzipIt then decideAndWriteHeader { g with deferring := false } h g.pendingCode
      else ({ g with deferring := false, wroteHeader := true, useGzip := false },
        [.writeHeader g.pendingCode]) :=
    ⟨_, rfl⟩
  rw [← hdecided]
  have hforwards : Forwards (.gzip g) (.gzip decided.1) h g.pendingCode decided.2 := by
    rw [hdecided]
    cases gzipIt with
    | false => exact ⟨⟨rfl, rfl⟩, h, .inl rfl, fun ls => rfl⟩
    | true =>
      exact decide_forwards (g := { g with deferring := false }) hg.wroteHeader rfl h g.pendingCode
  split_ifs
  · exact ⟨decided.2, [], (List.append_nil _).symm, hforwards⟩
  · obtain ⟨hwrote, hdeferring, chunks, hchunks⟩ := send_writes { decided.1 with buf := [] } g.buf
    obtain ⟨hlatched, hrest⟩ := hforwards
    exact ⟨decided.2,
      chunks, by rw [hchunks], ⟨hwrote.trans hlatched.1, hdeferring.trans hlatched.2⟩, hrest⟩

theorem Held.write (hg : Held g code) (h : Header) (b : Bytes) :
    (∃ g', g.write h b = (g', []) ∧ Held g' code) ∨ ∃ (out : List WriterCall) (chunks : List Bytes),
      (g.write h b).2 = out ++ chunks.map .write ∧
        Forwards (.gzip g) (.gzip (g.write h b).1) h code out := by
  have hwrite : g.write h b = g.writeDeferred h b := by
    rw [GzipResponseWriter.write, if_pos hg.deferring]
  have hbuffered : Held { g with buf := g.buf ++ b } code :=
    ⟨hg.deferring, hg.wroteHeader, hg.pendingCode⟩
  rw [hwrite]
  unfold writeDeferred
  dsimp only
  split_ifs
  · exact .inl ⟨_, rfl, hbuffered⟩
  · exact .inr (hbuffered.commit h true)

theorem Held.close (hg : Held g code) (h : Header) : ∃ (out : List WriterCall) (chunks : List Bytes),
    (g.call h .close).2 = out ++ chunks.map .write ++ [.close] ∧
      Forwards (.gzip g) (.gzip (g.call h .close).1) h code out := by
  have hclose : g.close h =
      ((g.commit h false).1, (g.commit h false).2 ++ (g.commit h false).1.closeGzip) := by
    simp only [GzipResponseWriter.close, hg.deferring, if_true]
  obtain ⟨out, chunks, hout, hforwards⟩ := hg.commit h false
  obtain ⟨closing, hclosing⟩ := closeGzip_writes (g.commit h false).1
  refine ⟨out, chunks ++ closing, ?_, ?_⟩
  · simp only [GzipResponseWriter.call, hclose, hout, hclosing, List.map_append, List.append_assoc]
  · simpa only [GzipResponseWriter.call, hclose] using hforwards

end Gzip

namespace Layer

variable {l : Layer gz} {code : ℤ}

theorem Fresh.writeHeader (hl : l.Fresh) (h : Header) (code : ℤ) :
    Forwards l (l.call { header := h } (.writeHeader code)).1 h code
      (l.call { header := h } (.writeHeader code)).2 ∨
      ∃ g, (l.call { header := h } (.writeHeader code)) = (.gzip g, []) ∧ Held g code ∧
        l.Edits = (Layer.gzip g).Edits := by
  cases l with
  | cache c =>
    have hcall : c.call (.writeHeader code) =
        ({ c with wroteHeader := true, status := code }, [.writeHeader code]) := by
      change c.writeHeader code = _
      rw [CacheCapture.writeHeader, if_neg]
      rw [show c.wroteHeader = false from hl]
      exact Bool.false_ne_true
    left
    simp only [call, hcall]
    exact ⟨⟨rfl, rfl⟩, h, rfl, fun ls => rfl⟩
  | gzip g =>
    change Forwards (.gzip g) (.gzip (g.writeHeader h code).1) h code (g.writeHeader h code).2 ∨
      ∃ g', (Layer.gzip (g.writeHeader h code).1, (g.writeHeader h code).2) = (.gzip g', []) ∧
        Held g' code ∧ _
    unfold GzipResponseWriter.writeHeader
    split_ifs
    · exact .inr ⟨_, rfl, ⟨rfl, hl.1, rfl⟩, rfl⟩
    · exact .inl (decide_forwards hl.1 hl.2 h code)
  | rewrite r =>
    have hcall : r.call (.writeHeader code) =
        ({ r with wroteHeader := true }, [.edit r.applyHeaders, .writeHeader code]) := by
      simp [RewriteResponseWriter.call, show r.wroteHeader = false from hl]
    left
    simp only [call, hcall]
    refine ⟨rfl, r.applyHeaders h, rfl, fun ls => ?_⟩
    change Stack.feed (Stack.feed (ls, { header := h }) (.edit r.applyHeaders)) (.writeHeader code) = _
    rw [feed_edit]
  | capture c =>
    have hcall : c.call h (.writeHeader code) =
        ({ c with wrote := true, statusCode := code, retryAfter := h.get "Retry-After" },
          [.writeHeader code]) := by
      simp [CaptureWriter.call, show c.wrote = false from hl]
    left
    simp only [call, hcall]
    exact ⟨⟨rfl, rfl⟩, h, rfl, fun ls => rfl⟩
  | access c =>
    have hcall : c.call (.writeHeader code) =
        ({ c with wroteHeader := true, status := code }, [.writeHeader code]) := by
      simp [CaptureResponseWriter.call, show c.wroteHeader = false from hl]
    left
    simp only [call, hcall]
    exact ⟨⟨rfl, rfl⟩, h, rfl, fun ls => rfl⟩

theorem Latched.write (hl : l.Latched code) (w : Wire) (b : Bytes) :
    (l.call w (.write b)).1.Latched code ∧
    ∃ chunks : List Bytes, (l.call w (.write b)).2 = chunks.map .write := by
  cases l with
  | cache c =>
    have hcall : c.call (.write b) = (c.buffer b, [.write b]) := by
      simp [CacheCapture.call, show c.wroteHeader = true from hl.1]
    have hkeep : (c.buffer b).wroteHeader = c.wroteHeader ∧ (c.buffer b).status = c.status := by
      unfold CacheCapture.buffer
      split_ifs <;> exact ⟨rfl, rfl⟩
    simp only [call, hcall]
    exact ⟨⟨hkeep.1.trans hl.1, hkeep.2.trans hl.2⟩, [b], rfl⟩
  | gzip g =>
    have hcall : g.call w.header (.write b) = g.send b := by
      simp [GzipResponseWriter.call, GzipResponseWriter.write, show g.wroteHeader = true from hl.1,
        show g.deferring = false from hl.2]
    obtain ⟨hwrote, hdeferring, hchunks⟩ := send_writes g b
    simp only [call, hcall]
    exact ⟨⟨hwrote.trans hl.1, hdeferring.trans hl.2⟩, hchunks⟩
  | rewrite r =>
    have hcall : r.call (.write b) = (r, [.write b]) := by
      simp [RewriteResponseWriter.call, show r.wroteHeader = true from hl]
    simp only [call, hcall]
    exact ⟨hl, [b], rfl⟩
  | capture c =>
    have hcall : c.call w.header (.write b) = ({ c with wrote := true }, [.write b]) := by
      simp [CaptureWriter.call, show c.wrote = true from hl.1]
    simp only [call, hcall]
    exact ⟨⟨rfl, hl.2⟩, [b], rfl⟩
  | access c => exact ⟨⟨rfl, hl.2⟩, [b], rfl⟩

theorem Latched.close (hl : l.Latched code) (w : Wire) : (l.call w .close).1.Latched code ∧
    ∃ chunks : List Bytes, (l.call w .close).2 = chunks.map .write ++ [.close] := by
  cases l with
  | gzip g =>
    have hcall : g.call w.header .close = (g, g.closeGzip ++ [.close]) := by
      simp [GzipResponseWriter.call, GzipResponseWriter.close, show g.deferring = false from hl.2]
    obtain ⟨chunks, hchunks⟩ := closeGzip_writes g
    simp only [call, hcall, hchunks]
    exact ⟨hl, chunks, rfl⟩
  | cache c => exact ⟨hl, [], rfl⟩
  | rewrite r => exact ⟨hl, [], rfl⟩
  | capture c => exact ⟨hl, [], rfl⟩
  | access c => exact ⟨hl, [], rfl⟩

end Layer

/-- The status has reached the bottom, or a compressing wrapper holds it and those below know
nothing yet. -/
inductive Told (code : ℤ) : Header → List (Layer gz) → Wire → Prop where
  | wire {h : Header} {w : Wire} (hw : statuses w.log = [(code, h)]) : Told code h [] w
  | passed {h h' : Header} {l : Layer gz} {ls : List (Layer gz)} {w : Wire} (hl : l.Latched code)
      (hedits : l.Edits h h') (hls : Told code h' ls w) : Told code h (l :: ls) w
  | held {h : Header} {g : GzipResponseWriter gz} {ls : List (Layer gz)} (hg : Held g code)
      (hls : ∀ l ∈ ls, l.Fresh) : Told code h (.gzip g :: ls) { header := h }

inductive Settled (code : ℤ) : Header → List (Layer gz) → Wire → Prop where
  | wire {h : Header} {w : Wire} (hw : statuses w.log = [(code, h)]) : Settled code h [] w
  | passed {h h' : Header} {l : Layer gz} {ls : List (Layer gz)} {w : Wire} (hl : l.Latched code)
      (hedits : l.Edits h h') (hls : Settled code h' ls w) : Settled code h (l :: ls) w

variable {code : ℤ} {h : Header} {ls : List (Layer gz)} {w : Wire}

theorem feed_cons (l : Layer gz) (ls : List (Layer gz)) (w : Wire) (o : WriterCall) :
    Stack.feed (l :: ls, w) o =
    ((l.call w o).1 :: (Stack.feedAll (ls, w) (l.call w o).2).1,
      (Stack.feedAll (ls, w) (l.call w o).2).2) :=
  Layers.feed_cons ..

theorem told_writeHeader (hls : ∀ l ∈ ls, l.Fresh) (h : Header) (code : ℤ) :
    Told code h (Stack.feed (ls, { header := h }) (.writeHeader code)).1
      (Stack.feed (ls, { header := h }) (.writeHeader code)).2 := by
  induction ls generalizing h with
  | nil => exact .wire rfl
  | cons l ls ih =>
    have hrest : ∀ l ∈ ls, l.Fresh := fun l' hl' => hls l' (List.mem_cons_of_mem _ hl')
    rw [feed_cons]
    rcases (hls l (List.mem_cons_self ..)).writeHeader h
      code with ⟨hl, h', hedits, hfeed⟩ | ⟨g, hcall, hg, -⟩
    · rw [hfeed]
      refine .passed hl ?_ (ih hrest h')
      rwa [Layer.call_edits]
    · rw [hcall]
      exact .held hg hrest

theorem feedAll_append (q : Stack gz) (os os' : List WriterCall) :
    Stack.feedAll q (os ++ os') = Stack.feedAll (Stack.feedAll q os) os' := Layers.feedAll_append ..

theorem told_writes_of {n : ℕ}
    (hwrite : ∀ {h : Header} {ls : List (Layer gz)} {w : Wire}, ls.length = n → Told code h ls w →
      ∀ b, Told code h (Stack.feed (ls, w) (.write b)).1 (Stack.feed (ls, w) (.write b)).2)
    (hn : ls.length = n) (ht : Told code h ls w) (chunks : List Bytes) :
    Told code h (Stack.feedAll (ls, w) (chunks.map .write)).1
      (Stack.feedAll (ls, w) (chunks.map .write)).2 := by
  induction chunks generalizing ls w with
  | nil => exact ht
  | cons b chunks ih =>
    exact ih ((Layers.length_feed Layer.call Wire.take (ls, w) _).trans hn) (hwrite hn ht b)

-- A write may become any number of writes on the wrappers below, hence the induction on their number.
theorem told_write {n : ℕ} (hn : ls.length = n) (ht : Told code h ls w) (b : Bytes) :
    Told code h (Stack.feed (ls, w) (.write b)).1 (Stack.feed (ls, w) (.write b)).2 := by
  induction n generalizing h ls w b with
  | zero =>
    obtain rfl := List.length_eq_zero_iff.mp hn
    cases ht with
    | wire hw =>
      refine .wire ?_
      change statuses (w.log ++ [b].map .bytes) = _
      rw [statuses_append, statuses_bytes, hw, List.append_nil]
  | succ n ih =>
    cases ht with
    | wire hw => exact absurd hn (by simp)
    | passed hl hedits hls =>
      obtain ⟨hl', chunks, hchunks⟩ := hl.write w b
      rw [feed_cons, hchunks]
      refine .passed hl' ?_ (told_writes_of (fun hn ht b => ih hn ht b) (Nat.succ.inj hn) hls chunks)
      rwa [Layer.call_edits]
    | held hg hls =>
      rename_i g ls
      rw [feed_cons]
      rcases hg.write h b with ⟨g', hcall, hg'⟩ | ⟨out, chunks, hout, hl', h', hedits, hfeed⟩
      · have hlayer : (Layer.gzip g).call { header := h } (.write b) = (.gzip g', []) := by
          simp only [Layer.call, GzipResponseWriter.call, hcall]
        rw [hlayer]
        exact .held hg' hls
      · have hlayer : (Layer.gzip g).call { header := h } (.write b) =
            (.gzip (g.write h b).1, out ++ chunks.map .write) := by
          simp only [Layer.call, GzipResponseWriter.call, hout]
        rw [hlayer, feedAll_append, hfeed]
        refine .passed hl' hedits
          (told_writes_of (fun hn ht b => ih hn ht b) ?_ (told_writeHeader hls h' code) chunks)
        exact (Layers.length_feed Layer.call Wire.take (ls, _) _).trans (Nat.succ.inj hn)

theorem told_writes (ht : Told code h ls w) (chunks : List Bytes) :
    Told code h (Stack.feedAll (ls, w) (chunks.map .write)).1
      (Stack.feedAll (ls, w) (chunks.map .write)).2 :=
  told_writes_of told_write rfl ht chunks

theorem settled_close {n : ℕ} (hn : ls.length = n) (ht : Told code h ls w) :
    Settled code h (Stack.feed (ls, w) .close).1 (Stack.feed (ls, w) .close).2 := by
  induction n generalizing h ls w with
  | zero =>
    obtain rfl := List.length_eq_zero_iff.mp hn
    cases ht with
    | wire hw => exact .wire hw
  | succ n ih =>
    have hbelow : ∀ {h' : Header} {ls' : List (Layer gz)} {w' : Wire}, ls'.length = n →
        Told code h' ls' w' →
        ∀ chunks : List Bytes,
          Settled code h' (Stack.feedAll (ls', w') (chunks.map .write ++ [.close])).1
          (Stack.feedAll (ls', w') (chunks.map .write ++ [.close])).2 := by
      intro h' ls' w' hn' ht' chunks
      have hlen := congrArg List.length (Layers.map_feedAll Layer.call Wire.take (f := fun _ => ())
        (fun _ _ _ => rfl) (ls', w') (chunks.map .write))
      rw [List.length_map, List.length_map] at hlen
      rw [feedAll_append]
      exact ih (hlen.trans hn') (told_writes ht' chunks)
    cases ht with
    | wire hw => exact absurd hn (by simp)
    | passed hl hedits hls =>
      obtain ⟨hl', chunks, hchunks⟩ := hl.close w
      rw [feed_cons, hchunks]
      refine .passed hl' ?_ (hbelow (Nat.succ.inj hn) hls chunks)
      rwa [Layer.call_edits]
    | held hg hls =>
      rename_i g ls
      obtain ⟨out, chunks, hout, hl', h', hedits, hfeed⟩ := hg.close h
      have hlayer : (Layer.gzip g).call { header := h } .close =
          (.gzip (g.call h .close).1, out ++ (chunks.map .write ++ [.close])) := by
        simp only [Layer.call, hout, List.append_assoc]
      rw [feed_cons, hlayer, feedAll_append, hfeed]
      refine .passed hl' hedits (hbelow ?_ (told_writeHeader hls h' code) chunks)
      exact (Layers.length_feed Layer.call Wire.take (ls, _) _).trans (Nat.succ.inj hn)

namespace Settled

theorem received (hs : Settled code h ls w) :
    ∃ header, statuses w.log = [(code, header)] ∧ Edited (ls.map Layer.Edits) h header := by
  induction hs with
  | wire hw => exact ⟨_, hw, rfl⟩
  | passed hl hedits hls ih =>
    obtain ⟨header, hw, hedited⟩ := ih
    exact ⟨header, hw, _, hedits, hedited⟩

theorem latched (hs : Settled code h ls w) : ∀ l ∈ ls, l.Latched code := by
  induction hs with
  | wire hw => simp
  | passed hl hedits hls ih => exact List.forall_mem_cons.mpr ⟨hl, ih⟩

end Settled

theorem settled_final (hls : ∀ l ∈ ls, l.Fresh) (h : Header) (r : Response) :
    Settled r.code h (Stack.feedAll (ls, { header := h }) r.finalCalls).1
      (Stack.feedAll (ls, { header := h }) r.finalCalls).2 := by
  have htold := told_writes (told_writeHeader hls h r.code) r.writes
  have hcalls : Stack.feedAll (ls, { header := h }) r.finalCalls =
      Stack.feed (Stack.feedAll (Stack.feed (ls, { header := h }) (.writeHeader r.code))
        (r.writes.map .write)) .close :=
    feedAll_append ..
  rw [hcalls]
  exact settled_close rfl htold

theorem transparent_of_final (hls : ∀ l ∈ ls, l.Fresh) (h : Header) (r : Response)
    (hr : r.informational = []) :
    Transparent ls h r := by
  have hhints : r.hintCalls = [] := by rw [Response.hintCalls, hr, List.flatMap_nil]
  have hfeed : Stack.feedAll (ls, { header := h }) (r.hintCalls ++ .edit r.edit :: r.finalCalls) =
      Stack.feedAll (ls, { header := r.edit h }) r.finalCalls := by
    rw [hhints]
    change Stack.feedAll (Stack.feed (ls, { header := h }) (.edit r.edit)) r.finalCalls = _
    rw [feed_edit]
  have hedit : Stack.feedAll (ls, { header := h }) (r.hintCalls ++ [.edit r.edit]) =
      (ls, { header := r.edit h }) := by
    rw [hhints]
    exact feed_edit ..
  have hsettled := settled_final hls (r.edit h) r
  obtain ⟨header, hstatus, hedited⟩ := hsettled.received
  refine ⟨?_, ⟨header, ?_, ?_⟩, ?_⟩
  · rw [hhints]
    exact fun l hl => Layer.wrote_of_fresh (hls l hl)
  · rw [hfeed, hstatus]
    exact List.mem_singleton_self _
  · rw [hedit]
    rwa [Stack.feedAll, Layers.map_feedAll Layer.call Wire.take Layer.call_edits] at hedited
  · rw [hfeed]
    exact fun l hl => Layer.recorded_of_latched (hsettled.latched l hl)

end ReverseProxyLb.Writers
