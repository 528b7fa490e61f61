import ReverseProxyLb.Writers.Informational

/-! After the first informational status a wrapper swallows or misses the final one, but for a
compression that defers every status, and for edits that the final header does not need. -/
namespace ReverseProxyLb.Writers
open Lib

variable {gz : Compressor}

theorem feedAll_bottom (w : Wire) (calls : List WriterCall) :
    Stack.feedAll (([], w) : Stack gz) calls = ([], calls.foldl Wire.take w) := by
  induction calls generalizing w with
  | nil => rfl
  | cons o calls ih => exact ih (w.take o)

theorem feed_single (l : Layer gz) (w : Wire) (o : WriterCall) :
    Stack.feed ([l], w) o = ([(l.call w o).1], (l.call w o).2.foldl Wire.take w) := by
  rw [feed_cons, feedAll_bottom]

theorem feedAll_single {P : Layer gz → Wire → Prop} {l : Layer gz} {w : Wire} (h : P l w)
    (hstep : ∀ l w o, P l w → P (l.call w o).1 ((l.call w o).2.foldl Wire.take w))
    (calls : List WriterCall) :
    ∃ l' w', Stack.feedAll ([l], w) calls = ([l'], w') ∧ P l' w' := by
  induction calls generalizing l w with
  | nil => exact ⟨l, w, rfl, h⟩
  | cons o calls ih =>
    change ∃ l' w', Stack.feedAll (Stack.feed ([l], w) o) calls = ([l'], w') ∧ P l' w'
    rw [feed_single]
    exact ih (hstep l w o h)

theorem statuses_foldl_take (w : Wire) (calls : List WriterCall) :
    ∃ more, statuses (calls.foldl Wire.take w).log = statuses w.log ++ more ∧
      ∀ status ∈ more, WriterCall.writeHeader status.1 ∈ calls := by
  induction calls generalizing w with
  | nil => exact ⟨[], by simp, by simp⟩
  | cons o calls ih =>
    obtain ⟨more, hmore, hall⟩ := ih (w.take o)
    have hlater : ∀ status ∈ more, WriterCall.writeHeader status.1 ∈ o :: calls :=
      fun status hs => List.mem_cons_of_mem _ (hall status hs)
    rw [List.foldl_cons, hmore]
    cases o with
    | writeHeader code =>
      refine ⟨(code, w.header) :: more, by simp [Wire.take], List.forall_mem_cons.mpr ⟨?_, hlater⟩⟩
      exact List.mem_cons_self ..
    | edit f => exact ⟨more, rfl, hlater⟩
    | write b =>
      have hbytes : statuses [.bytes b] = [] := rfl
      exact ⟨more, by simp [Wire.take, hbytes], hlater⟩
    | flush => exact ⟨more, by simp [Wire.take], hlater⟩
    | close => exact ⟨more, rfl, hlater⟩

def OnlyHints (log : List Received) : Prop := ∀ status ∈ statuses log, Informational status.1

theorem OnlyHints.take {w : Wire} {calls : List WriterCall} (h : OnlyHints w.log)
    (hcalls : ∀ code, WriterCall.writeHeader code ∈ calls → Informational code) :
    OnlyHints (calls.foldl Wire.take w).log := by
  obtain ⟨more, hmore, hall⟩ := statuses_foldl_take w calls
  intro status hs
  rw [hmore, List.mem_append] at hs
  exact hs.elim (h status) fun hs => hcalls _ (hall status hs)

def Spoilt : Layer gz → Wire → Prop
  | .cache c, _ => c.wroteHeader = true ∧ Informational c.status
  | .gzip g, w =>
    g.wroteHeader = true ∧ (g.deferring = true → Informational g.pendingCode) ∧ OnlyHints w.log
  | .capture c, _ => c.wrote = true ∧ Informational c.statusCode
  | .access c, _ => c.wroteHeader = true ∧ Informational c.status
  | .rewrite _, _ => False

section Gzip
open GzipResponseWriter

variable {g : GzipResponseWriter gz}

theorem flushGzip_writes (g : GzipResponseWriter gz) : g.flushGzip.1.wroteHeader = g.wroteHeader ∧
    g.flushGzip.1.deferring = g.deferring ∧
      ∃ chunks : List Bytes, g.flushGzip.2 = chunks.map .write := by
  unfold flushGzip
  split_ifs
  · split
    · exact ⟨rfl, rfl, _, rfl⟩
    · exact ⟨rfl, rfl, [], rfl⟩
  · exact ⟨rfl, rfl, [], rfl⟩

theorem commit_spent (hwrote : g.wroteHeader = true) (hdeferring : g.deferring = true) (h : Header)
    (gzipIt : Bool) :
    (g.commit h gzipIt).1.wroteHeader = true ∧ (g.commit h gzipIt).1.deferring = false ∧
      ∀ code, WriterCall.writeHeader code ∈ (g.commit h gzipIt).2 → code = g.pendingCode := by
  have hdecide : decideAndWriteHeader { g with deferring := false } h g.pendingCode =
      ({ g with deferring := false }, []) := by simp [decideAndWriteHeader, hwrote]
  rw [commit_eq g h gzipIt hdeferring, hdecide]
  obtain ⟨decided, hdecided⟩ : ∃ decided, decided =
      if gzipIt then (({ g with deferring := false }, []) : GzipResponseWriter gz × List WriterCall)
      else ({ g with deferring := false, wroteHeader := true, useGzip := false },
        [.writeHeader g.pendingCode]) :=
    ⟨_, rfl⟩
  have hspent : decided.1.wroteHeader = true ∧ decided.1.deferring = false ∧
      ∀ code, WriterCall.writeHeader code ∈ decided.2 → code = g.pendingCode := by
    rw [hdecided]
    cases gzipIt
    · simp
    · simp [hwrote]
  rw [← hdecided]
  dsimp only
  split_ifs
  · exact hspent
  · obtain ⟨hwrote', hdeferring', chunks, hchunks⟩ := send_writes { decided.1 with buf := [] } g.buf
    refine ⟨hwrote'.trans hspent.1, hdeferring'.trans hspent.2.1, fun code hcode => ?_⟩
    rw [hchunks] at hcode
    exact hspent.2.2 code (by simpa using hcode)

/-- No status but the pending one may be sent. -/
theorem spoilt_gzip_of {w : Wire} (hg : Spoilt (.gzip g) w) {g' : GzipResponseWriter gz}
    {out : List WriterCall} (hwrote : g'.wroteHeader = true)
    (hpending : g'.deferring = true → Informational g'.pendingCode)
    (hout : ∀ code, WriterCall.writeHeader code ∈ out → g.deferring = true ∧ code = g.pendingCode) :
    Spoilt (.gzip g') (out.foldl Wire.take w) := by
  refine ⟨hwrote, hpending, hg.2.2.take fun code hcode => ?_⟩
  obtain ⟨hdeferring, rfl⟩ := hout code hcode
  exact hg.2.1 hdeferring

theorem spoilt_gzip {w : Wire} (hg : Spoilt (.gzip g) w) (o : WriterCall) :
    Spoilt (Layer.gzip (g.call w.header o).1) ((g.call w.header o).2.foldl Wire.take w) := by
  have hwrote : g.wroteHeader = true := hg.1
  have hpending := hg.2.1
  cases o with
  | edit f =>
    change Spoilt (.gzip g) ([WriterCall.edit f].foldl Wire.take w)
    exact spoilt_gzip_of hg hwrote hpending (by simp)
  | writeHeader code =>
    have hcall : g.call w.header (.writeHeader code) = (g, []) := by
      simp [call, GzipResponseWriter.writeHeader, decideAndWriteHeader, hwrote]
    rw [hcall]
    exact spoilt_gzip_of hg hwrote hpending (by simp)
  | write b =>
    by_cases hdeferring : g.deferring = true
    · have hcall : g.call w.header (.write b) = g.writeDeferred w.header b := by
        simp only [call, write, hdeferring, if_true]
      rw [hcall]
      unfold writeDeferred
      dsimp only
      split_ifs
      · exact spoilt_gzip_of hg hwrote hpending (by simp)
      · obtain ⟨hw, hd, hout⟩ :=
          commit_spent (g := { g with buf := g.buf ++ b }) hwrote hdeferring w.header true
        exact spoilt_gzip_of hg hw (by simp [hd]) fun code hcode => ⟨hdeferring, hout code hcode⟩
    · have hcall : g.call w.header (.write b) = g.send b := by
        simp [call, write, hdeferring, hwrote]
      obtain ⟨hw, hd, chunks, hchunks⟩ := send_writes g b
      rw [hcall, hchunks]
      exact spoilt_gzip_of hg (hw.trans hwrote) (by simp [hd, hdeferring]) (by simp)
  | flush =>
    by_cases hdeferring : g.deferring = true
    · obtain ⟨hw, hd, hout⟩ := commit_spent hwrote hdeferring w.header true
      obtain ⟨hw', hd', chunks, hchunks⟩ := flushGzip_writes (g.commit w.header true).1
      have hcall : g.call w.header .flush = ((g.commit w.header true).1.flushGzip.1,
          (g.commit w.header true).2 ++ (chunks.map .write ++ [.flush])) := by
        simp only [call, flush, hdeferring, if_true, hchunks]
      rw [hcall]
      refine spoilt_gzip_of hg (hw'.trans hw) (by simp [hd', hd]) fun code hcode =>
        ⟨hdeferring, hout code ?_⟩
      simpa using hcode
    · obtain ⟨hw, hd, chunks, hchunks⟩ := flushGzip_writes g
      have hcall : g.call w.header .flush = (g.flushGzip.1, chunks.map .write ++ [.flush]) := by
        simp [call, flush, hdeferring, hchunks]
      rw [hcall]
      exact spoilt_gzip_of hg (hw.trans hwrote) (by simp [hd, hdeferring]) (by simp)
  | close =>
    by_cases hdeferring : g.deferring = true
    · obtain ⟨hw, hd, hout⟩ := commit_spent hwrote hdeferring w.header false
      obtain ⟨chunks, hchunks⟩ := closeGzip_writes (g.commit w.header false).1
      have hcall : g.call w.header .close = ((g.commit w.header false).1,
          (g.commit w.header false).2 ++ chunks.map .write ++ [.close]) := by
        simp only [call, close, hdeferring, if_true, hchunks]
      rw [hcall]
      refine spoilt_gzip_of hg hw (by simp [hd]) fun code hcode => ⟨hdeferring, hout code ?_⟩
      simpa using hcode
    · obtain ⟨chunks, hchunks⟩ := closeGzip_writes g
      have hcall : g.call w.header .close = (g, chunks.map .write ++ [.close]) := by
        simp [call, close, hdeferring, hchunks]
      rw [hcall]
      exact spoilt_gzip_of hg hwrote hpending (by simp)

end Gzip

theorem Spoilt.call {l : Layer gz} {w : Wire} (h : Spoilt l w) (o : WriterCall) :
    Spoilt (l.call w o).1 ((l.call w o).2.foldl Wire.take w) := by
  cases l with
  | gzip g => exact spoilt_gzip h o
  | rewrite r => exact h.elim
  | cache c =>
    have hwrote : c.wroteHeader = true := h.1
    have hbuffer : ∀ b, (c.buffer b).wroteHeader = c.wroteHeader ∧ (c.buffer b).status = c.status := by
      intro b
      unfold CacheCapture.buffer
      split_ifs <;> exact ⟨rfl, rfl⟩
    cases o <;>
      simp [Layer.call, CacheCapture.call, CacheCapture.writeHeader, Spoilt, hbuffer, hwrote, h.2]
  | capture c =>
    have hwrote : c.wrote = true := h.1
    cases o <;> simp [Layer.call, CaptureWriter.call, Spoilt, hwrote, h.2]
  | access c =>
    have hwrote : c.wroteHeader = true := h.1
    cases o <;> simp [Layer.call, CaptureResponseWriter.call, Spoilt, hwrote, h.2]

theorem Spoilt.not_transparent {l l' : Layer gz} {h : Header} {r : Response} {w : Wire}
    (hhints : Stack.feedAll ([l], { header := h }) r.hintCalls = ([l'], w)) (hs : Spoilt l' w) :
    ¬ Transparent [l] h r := by
  intro ht
  obtain ⟨l'', w', hend, hspoilt⟩ :=
    feedAll_single hs (fun _ _ o h => h.call o) (.edit r.edit :: r.finalCalls)
  have hreceived := ht.received
  have hrecorded := ht.recorded
  rw [feedAll_append, hhints, hend] at hrecorded hreceived
  obtain ⟨header, hmem, -⟩ := hreceived
  have hcode : ∀ status ∈ l''.recorded, ¬ Informational status := by
    intro status hstatus
    rw [hrecorded l'' (List.mem_singleton_self _) status hstatus]
    exact r.final
  cases l'' with
  | cache c => exact hcode _ rfl hspoilt.2
  | gzip g => exact r.final (hspoilt.2.2 _ hmem)
  | capture c => exact hcode _ rfl hspoilt.2
  | access c => exact hcode _ rfl hspoilt.2
  | rewrite r => exact hspoilt

def headersAt : Header → List ((Header → Header) × ℤ) → List Header
  | _, [] => []
  | h, hint :: hints => hint.1 h :: headersAt (hint.1 h) hints

def GzipResponseWriter.Defers (g : GzipResponseWriter gz) (h : Header) : Prop :=
  0 < g.minSize ∧ g.gzipEligiblePreBody h = true

def hintsOf (hints : List ((Header → Header) × ℤ)) : List WriterCall :=
  hints.flatMap fun hint => [.edit hint.1, .writeHeader hint.2]

theorem feedAll_hint (l : Layer gz) (h : Header) (hint : (Header → Header) × ℤ)
    (hints : List ((Header → Header) × ℤ)) :
    Stack.feedAll ([l], { header := h }) (hintsOf (hint :: hints)) =
      Stack.feedAll (Stack.feed ([l], { header := hint.1 h }) (.writeHeader hint.2))
        (hintsOf hints) := by
  change Stack.feedAll
    (Stack.feed (Stack.feed ([l], { header := h }) (.edit hint.1)) (.writeHeader hint.2)) _ = _
  rw [feed_edit]
  rfl

section Hints
variable {hints : List ((Header → Header) × ℤ)} {h : Header}

theorem defers_writeHeader {g : GzipResponseWriter gz} (hwrote : g.wroteHeader = false)
    (hd : g.Defers h) (code : ℤ) :
    Stack.feed (([.gzip g], { header := h }) : Stack gz) (.writeHeader code) =
      ([.gzip { g with deferring := true, pendingCode := code }], { header := h }) := by
  have hcall : g.writeHeader h code = ({ g with deferring := true, pendingCode := code }, []) := by
    simp [GzipResponseWriter.writeHeader, hwrote, hd.1, hd.2]
  rw [feed_single]
  simp only [Layer.call, GzipResponseWriter.call, hcall]
  rfl

theorem spoilt_of_not_defers {g : GzipResponseWriter gz} (hwrote : g.wroteHeader = false)
    (hd : ¬ g.Defers h) {code : ℤ} (hcode : Informational code)
    (hpending : g.deferring = true → Informational g.pendingCode) :
    ∃ l w, Stack.feed (([.gzip g], { header := h }) : Stack gz) (.writeHeader code) = ([l], w) ∧
      Spoilt l w := by
  have hcall : g.writeHeader h code = g.decideAndWriteHeader h code := by
    rw [GzipResponseWriter.writeHeader, if_neg]
    rintro ⟨hmin, -, heligible⟩
    exact hd ⟨hmin, heligible⟩
  have hdecided : (g.decideAndWriteHeader h code).1.wroteHeader = true ∧
      (g.decideAndWriteHeader h code).1.deferring = g.deferring ∧
      (g.decideAndWriteHeader h code).1.pendingCode = g.pendingCode ∧
      ∀ code', WriterCall.writeHeader code' ∈ (g.decideAndWriteHeader h code).2 → code' = code := by
    unfold GzipResponseWriter.decideAndWriteHeader
    rw [if_neg (by simp [hwrote])]
    split_ifs <;> simp
  obtain ⟨hwrote', hdeferring, hpending', hout⟩ := hdecided
  have hfeed := feed_single (Layer.gzip g) { header := h } (.writeHeader code)
  simp only [Layer.call, GzipResponseWriter.call, hcall] at hfeed
  refine ⟨_, _, hfeed, hwrote', fun hd' => ?_, ?_⟩
  · rw [hpending']
    exact hpending (hdeferring ▸ hd')
  · have hnone : OnlyHints ({ header := h } : Wire).log := by simp [OnlyHints, statuses]
    exact hnone.take fun code' hcode' => hout code' hcode' ▸ hcode

theorem gzip_hints {g : GzipResponseWriter gz} (hwrote : g.wroteHeader = false)
    (hpending : g.deferring = true → Informational g.pendingCode)
    (hhints : ∀ hint ∈ hints, Informational hint.2) :
    ((∀ h' ∈ headersAt h hints, g.Defers h') →
      ∃ g' h', Stack.feedAll (([.gzip g], { header := h }) : Stack gz)
        (hintsOf hints) = ([.gzip g'], { header := h' }) ∧ g'.wroteHeader = false ∧
        g'.toCompressionPolicy = g.toCompressionPolicy) ∧
      ((¬ ∀ h' ∈ headersAt h hints, g.Defers h') →
        ∃ l w, Stack.feedAll (([.gzip g], { header := h }) : Stack gz)
        (hintsOf hints) = ([l], w) ∧ Spoilt l w) := by
  induction hints generalizing g h with
  | nil => exact ⟨fun _ => ⟨g, h, rfl, hwrote, rfl⟩, fun hnot => absurd (by simp [headersAt]) hnot⟩
  | cons hint hints ih =>
    obtain ⟨hfirst, hrest⟩ := List.forall_mem_cons.mp hhints
    rw [feedAll_hint, headersAt, List.forall_mem_cons]
    by_cases hd : g.Defers (hint.1 h)
    · rw [defers_writeHeader hwrote hd]
      have hih := ih (g := { g with deferring := true, pendingCode := hint.2 }) (h := hint.1 h) hwrote
        (fun _ => hfirst) hrest
      exact ⟨fun hall => hih.1 hall.2, fun hnot => hih.2 fun hall => hnot ⟨hd, hall⟩⟩
    · refine ⟨fun hall => absurd hall.1 hd, fun _ => ?_⟩
      obtain ⟨l, w, hfeed, hspoilt⟩ := spoilt_of_not_defers hwrote hd hfirst hpending
      rw [hfeed]
      exact feedAll_single hspoilt (fun _ _ o h => h.call o) _

theorem spoilt_of_fresh {l : Layer gz} (hl : l.Fresh) {code : ℤ} (hcode : Informational code)
    (hkind : ∀ g, l ≠ .gzip g) (hkind' : ∀ rw, l ≠ .rewrite rw) :
    ∃ l' w, Stack.feed ([l], { header := h }) (.writeHeader code) = ([l'], w) ∧ Spoilt l' w := by
  refine ⟨_, _, feed_single .., ?_⟩
  cases l with
  | gzip g => exact absurd rfl (hkind g)
  | rewrite rw => exact absurd rfl (hkind' rw)
  | cache c =>
    simp [Layer.call, CacheCapture.call, CacheCapture.writeHeader, Spoilt,
      show c.wroteHeader = false from hl, hcode]
  | capture c => simp [Layer.call, CaptureWriter.call, Spoilt, show c.wrote = false from hl, hcode]
  | access c =>
    simp [Layer.call, CaptureResponseWriter.call, Spoilt, show c.wroteHeader = false from hl, hcode]

end Hints

def Response.finalHeader (r : Response) (ls : List (Layer gz)) (h : Header) : Header :=
  (Stack.feedAll (ls, { header := h }) (r.hintCalls ++ [.edit r.edit])).2.header

theorem feedAll_response (ls : List (Layer gz)) (h : Header) (r : Response) :
    Stack.feedAll (ls, { header := h }) (r.hintCalls ++ .edit r.edit :: r.finalCalls) =
      Stack.feedAll (Stack.feedAll (ls, { header := h }) (r.hintCalls ++ [.edit r.edit]))
        r.finalCalls := by
  rw [← feedAll_append, List.append_assoc]
  rfl

theorem feedAll_finalCalls (q : Stack gz) (r : Response) : Stack.feedAll q r.finalCalls =
    Stack.feed (Stack.feedAll (Stack.feed q (.writeHeader r.code)) (r.writes.map .write)) .close :=
  feedAll_append ..

theorem received_of_deferred {g : GzipResponseWriter gz} (hwrote : g.wroteHeader = false)
    {h : Header} (hd : g.Defers h) (r : Response) : ∃ header, (r.code, header) ∈
      statuses (Stack.feedAll (([.gzip g], { header := h }) : Stack gz) r.finalCalls).2.log ∧
    (header = h ∨ header = compressed h) := by
  have htold : Told r.code h
      [.gzip { g with deferring := true, pendingCode := r.code }] { header := h } :=
    .held ⟨rfl, hwrote, rfl⟩ (by simp)
  have hsettled := settled_close rfl (told_writes htold r.writes)
  obtain ⟨header, hstatus, hedited⟩ := hsettled.received
  rw [feedAll_finalCalls, defers_writeHeader hwrote hd, hstatus]
  refine ⟨header, List.mem_singleton_self _, ?_⟩
  rw [Stack.feed, Layers.feed, Layers.map_feedN Layer.call Wire.take Layer.call_edits, Stack.feedAll,
    Layers.map_feedAll Layer.call Wire.take Layer.call_edits] at hedited
  obtain ⟨mid, hmid, rfl⟩ := hedited
  exact hmid

theorem received_of_ineligible {g : GzipResponseWriter gz} (hwrote : g.wroteHeader = false)
    {h : Header} (hineligible : g.gzipEligiblePreBody h = false) (r : Response) : (r.code, h) ∈
      statuses (Stack.feedAll (([.gzip g], { header := h }) : Stack gz) r.finalCalls).2.log := by
  have hplain : ∃ g', g.writeHeader h r.code = (g', [.writeHeader r.code]) := by
    rw [GzipResponseWriter.writeHeader, if_neg (by simp [hineligible])]
    unfold GzipResponseWriter.gzipEligiblePreBody at hineligible
    unfold GzipResponseWriter.decideAndWriteHeader
    rw [if_neg (by simp [hwrote])]
    split_ifs at hineligible ⊢ <;> simp_all
  obtain ⟨g', hcall⟩ := hplain
  have hfeed : Stack.feed (([.gzip g], { header := h }) : Stack gz) (.writeHeader r.code) =
      ([.gzip g'], { header := h, log := [.status r.code h] }) := by
    rw [feed_single]
    simp only [Layer.call, GzipResponseWriter.call, hcall]
    rfl
  have hkeeps : ∀ (l : Layer gz) (w : Wire) (o : WriterCall), (r.code, h) ∈ statuses w.log →
      (r.code, h) ∈ statuses ((l.call w o).2.foldl Wire.take w).log := by
    intro l w o hmem
    obtain ⟨more, hmore, -⟩ := statuses_foldl_take w (l.call w o).2
    rw [hmore]
    exact List.mem_append_left _ hmem
  obtain ⟨l, w, hend, hmem⟩ := feedAll_single (l := Layer.gzip g')
    (w := { header := h, log := [.status r.code h] }) (P := fun _ w => (r.code, h) ∈ statuses w.log)
    (List.mem_singleton_self _) hkeeps (r.writes.map .write ++ [.close])
  have hfinal : Stack.feedAll (([.gzip g], { header := h }) : Stack gz) r.finalCalls = ([l], w) := by
    rw [feedAll_finalCalls, hfeed, ← hend, feedAll_append]
    rfl
  rw [hfinal]
  exact hmem

theorem received_of_held {g : GzipResponseWriter gz} (hwrote : g.wroteHeader = false)
    (hmin : 0 < g.minSize) (h : Header) (r : Response) : ∃ header, (r.code, header) ∈
      statuses (Stack.feedAll (([.gzip g], { header := h }) : Stack gz) r.finalCalls).2.log ∧
    (header = h ∨ header = compressed h) := by
  cases heligible : g.gzipEligiblePreBody h with
  | true => exact received_of_deferred hwrote ⟨hmin, heligible⟩ r
  | false => exact ⟨h, received_of_ineligible hwrote heligible r, .inl rfl⟩

theorem transparent_of_defers {g : GzipResponseWriter gz} {h : Header} {r : Response}
    (hg : (Layer.gzip g).Fresh) (hd : ∀ h' ∈ headersAt h r.informational, g.Defers h') :
    Transparent [.gzip g] h r := by
  obtain ⟨hwrote, hdeferring⟩ := hg
  by_cases hnone : r.informational = []
  · exact transparent_of_final (by simpa using ⟨hwrote, hdeferring⟩) h r hnone
  have hmin : 0 < g.minSize := by
    obtain ⟨hint, hints, hr⟩ := List.exists_cons_of_ne_nil hnone
    rw [hr] at hd
    exact (hd _ (List.mem_cons_self ..)).1
  obtain ⟨g', h', hhints, hwrote', hpolicy⟩ := (gzip_hints hwrote (by simp [hdeferring]) r.hints).1 hd
  have hhints : Stack.feedAll (([.gzip g], { header := h }) : Stack gz) r.hintCalls =
      ([.gzip g'], { header := h' }) :=
    hhints
  have hedit : Stack.feedAll
      (([.gzip g], { header := h }) : Stack gz) (r.hintCalls ++ [.edit r.edit]) =
      ([.gzip g'], { header := r.edit h' }) := by
    rw [feedAll_append, hhints]
    exact feed_edit ..
  have hend : Stack.feedAll
      (([.gzip g], { header := h }) : Stack gz) (r.hintCalls ++ .edit r.edit :: r.finalCalls) =
      Stack.feedAll ([.gzip g'], { header := r.edit h' }) r.finalCalls := by
    rw [feedAll_response, hedit]
  refine ⟨?_, ?_, ?_⟩
  · rw [hhints]
    simp [Layer.wrote]
  · have hmin' : 0 < g'.minSize := by
      rw [hpolicy]
      exact hmin
    obtain ⟨header, hmem, hheader⟩ := received_of_held hwrote' hmin' (r.edit h') r
    rw [hend, hedit]
    exact ⟨header, hmem, header, hheader, rfl⟩
  · rw [hend]
    obtain ⟨l, w, hlast, g'', rfl⟩ :=
      feedAll_single (P := fun l _ => ∃ g'', l = Layer.gzip g'') ⟨g', rfl⟩
      (by rintro _ w o ⟨g, rfl⟩; exact ⟨_, rfl⟩) r.finalCalls
    rw [hlast]
    simp [Layer.recorded]

theorem feedAll_rewrite {rw : RewriteResponseWriter} (hrw : rw.wroteHeader = true) (w : Wire)
    (calls : List WriterCall) :
    Stack.feedAll (([.rewrite rw], w) : Stack gz) calls =
      ([.rewrite rw], calls.foldl Wire.take w) := by
  induction calls generalizing w with
  | nil => rfl
  | cons o calls ih =>
    have hcall : rw.call o = (rw, [o]) := by cases o <;> simp [RewriteResponseWriter.call, hrw]
    change Stack.feedAll (Stack.feed ([.rewrite rw], w) o) calls = _
    rw [feed_single]
    simp only [Layer.call, hcall]
    exact ih (w.take o)

theorem statuses_finalCalls (w : Wire) (r : Response) :
    statuses (r.finalCalls.foldl Wire.take w).log = statuses w.log ++ [(r.code, w.header)] := by
  rw [Response.finalCalls, List.foldl_cons, List.foldl_append, take_writes]
  change statuses ((w.log ++ [.status r.code w.header]) ++ r.writes.map .bytes) = _
  rw [statuses_append, statuses_append, statuses_bytes, List.append_nil]
  rfl

theorem rewrite_hints (gz : Compressor) {rw : RewriteResponseWriter} (hrw : rw.wroteHeader = false)
    {h : Header} {r : Response} (hne : r.informational ≠ []) : ∃ told,
    Stack.feedAll (([.rewrite rw], { header := h }) : Stack gz) r.hintCalls =
      ([.rewrite { rw with wroteHeader := true }], told) ∧ OnlyHints told.log := by
  obtain ⟨hint, hints, hr⟩ := List.exists_cons_of_ne_nil hne
  have hinformational := r.hints
  rw [hr, List.forall_mem_cons] at hinformational
  let first : Wire :=
    { header := rw.applyHeaders (hint.1 h), log := [.status hint.2 (rw.applyHeaders (hint.1 h))] }
  refine ⟨(hintsOf hints).foldl Wire.take first, ?_, ?_⟩
  · have hcall : rw.call (.writeHeader hint.2) =
        ({ rw with wroteHeader := true }, [.edit rw.applyHeaders, .writeHeader hint.2]) := by
      simp [RewriteResponseWriter.call, hrw]
    change Stack.feedAll _ (hintsOf r.informational) = _
    rw [hr, feedAll_hint, feed_single]
    simp only [Layer.call, hcall]
    exact feedAll_rewrite rfl first (hintsOf hints)
  · have hfirst : OnlyHints first.log := by simpa [OnlyHints, first] using hinformational.1
    refine hfirst.take fun code hcode => ?_
    obtain ⟨hint', hmem, hcode⟩ := List.mem_flatMap.mp hcode
    obtain rfl : code = hint'.2 := by simpa using hcode
    exact hinformational.2 hint' hmem

theorem rewrite_transparent_iff {rw : RewriteResponseWriter} (hrw : rw.wroteHeader = false)
    {h : Header} {r : Response} (hne : r.informational ≠ []) :
    Transparent [(.rewrite rw : Layer gz)] h r ↔
      rw.applyHeaders (r.finalHeader [(.rewrite rw : Layer gz)] h) =
        r.finalHeader [(.rewrite rw : Layer gz)] h := by
  obtain ⟨told, hhints, honly⟩ := rewrite_hints gz (h := h) hrw hne
  have hedit : Stack.feedAll
      (([.rewrite rw], { header := h }) : Stack gz) (r.hintCalls ++ [.edit r.edit]) =
      ([.rewrite { rw with wroteHeader := true }], { told with header := r.edit told.header }) := by
    rw [feedAll_append, hhints]
    exact feed_edit ..
  have hfinal : r.finalHeader [(.rewrite rw : Layer gz)] h = r.edit told.header := by
    rw [Response.finalHeader, hedit]
  have hend : Stack.feedAll
      (([.rewrite rw], { header := h }) : Stack gz) (r.hintCalls ++ .edit r.edit :: r.finalCalls) =
      ([.rewrite { rw with wroteHeader := true }], r.finalCalls.foldl Wire.take { told with header := r.edit told.header }) := by
    rw [feedAll_response, hedit, feedAll_rewrite rfl]
  rw [hfinal]
  constructor
  · intro ht
    obtain ⟨header, hmem, mid, hmid, hheader⟩ := ht.received
    rw [hedit] at hmid
    rw [hend, statuses_finalCalls, List.mem_append, List.mem_singleton] at hmem
    obtain hmem | heq := hmem
    · exact absurd (honly _ hmem) r.final
    · have hlast : header = r.edit told.header := (Prod.mk.inj heq).2
      exact (hmid.symm.trans hheader.symm).trans hlast
  · intro hsame
    refine ⟨?_, ⟨r.edit told.header, ?_, ?_⟩, ?_⟩
    · rw [hhints]
      simp [Layer.wrote]
    · rw [hend, statuses_finalCalls]
      exact List.mem_append_right _ (List.mem_singleton_self _)
    · rw [hedit]
      exact ⟨_, rfl, hsame.symm⟩
    · rw [hend]
      simp [Layer.recorded]

def Layer.Passes (l : Layer gz) (h : Header) (r : Response) : Prop :=
  match l with
  | .cache _ | .capture _ | .access _ => False
  | .gzip g => ∀ h' ∈ headersAt h r.informational, g.Defers h'
  | .rewrite rw => rw.applyHeaders (r.finalHeader [l] h) = r.finalHeader [l] h

theorem single_transparent_iff {l : Layer gz} (hl : l.Fresh) (h : Header) (r : Response) :
    Transparent [l] h r ↔ r.informational = [] ∨ l.Passes h r := by
  by_cases hnone : r.informational = []
  · exact iff_of_true (transparent_of_final (by simpa using hl) h r hnone) (.inl hnone)
  rw [or_iff_right hnone]
  obtain ⟨hint, hints, hr⟩ := List.exists_cons_of_ne_nil hnone
  have hspoilt : (∀ g, l ≠ .gzip g) → (∀ rw, l ≠ .rewrite rw) → ¬ Transparent [l] h r := by
    intro hkind hkind'
    have hcode := r.hints hint (by simp [hr])
    obtain ⟨l', w, hfeed, hs⟩ := spoilt_of_fresh (h := hint.1 h) hl hcode hkind hkind'
    obtain ⟨l'', w', hend, hs'⟩ := feedAll_single hs (fun _ _ o h => h.call o) (hintsOf hints)
    refine Spoilt.not_transparent ?_ hs'
    change Stack.feedAll _ (hintsOf r.informational) = _
    rw [hr, feedAll_hint, hfeed, hend]
  cases l with
  | cache c => exact iff_of_false (hspoilt (by simp) (by simp)) id
  | capture c => exact iff_of_false (hspoilt (by simp) (by simp)) id
  | access c => exact iff_of_false (hspoilt (by simp) (by simp)) id
  | rewrite rw => exact rewrite_transparent_iff hl hnone
  | gzip g =>
    refine ⟨fun ht => ?_, transparent_of_defers hl⟩
    by_contra hnot
    obtain ⟨l', w, hfeed, hs⟩ := (gzip_hints hl.1 (by simp [hl.2]) r.hints).2 hnot
    exact Spoilt.not_transparent hfeed hs ht

/-- Every stack is transparent to a response exactly if it has no informational status. A single
wrapper is to others only if it is a compression that holds back every status, or a rewriting
whose edits the final header does not need. -/
theorem transparent_iff (gz : Compressor) (r : Response) :
    ((∀ ls : List (Layer gz), (∀ l ∈ ls, l.Fresh) → ∀ h, Transparent ls h r) ↔ r.informational = []) ∧
      ∀ (l : Layer gz) (h : Header), l.Fresh →
        (Transparent [l] h r ↔ r.informational = [] ∨ l.Passes h r) := by
  refine ⟨⟨fun hall => ?_, fun hr ls hls h => transparent_of_final hls h r hr⟩,
    fun l h hl => single_transparent_iff hl h r⟩
  have hfresh : (Layer.capture {} : Layer gz).Fresh := rfl
  have hcapture := hall [.capture {}] (by simpa using hfresh) fun _ => []
  exact ((single_transparent_iff hfresh _ r).mp hcapture).elim id False.elim

/-- Early hints, after which the proxy clears the header, and an error of the backend. -/
def earlyHints : Response where
  informational := [(id, 103)]
  edit := fun _ _ => []
  code := 503
  hints := by simp [Informational]
  final := by simp [Informational]

/-- A compression with a threshold holds the hints back, and they are lost, but the final status is not. -/
theorem transparent_deferred :
    Transparent [(.gzip { minSize := 1024 } : Layer stored)] (fun _ => []) earlyHints := by
  have hfresh : (.gzip { minSize := 1024 } : Layer stored).Fresh := ⟨rfl, rfl⟩
  refine ((transparent_iff stored earlyHints).2 _ (fun _ => []) hfresh).mpr (.inr fun h hh => ?_)
  obtain rfl : h = id fun _ => [] := List.mem_singleton.mp hh
  exact ⟨by decide, by decide⟩

def overEarlyHints (l : Layer stored) : Stack stored :=
  Stack.feedAll ([l], { header := fun _ => [] })
    (earlyHints.hintCalls ++ .edit earlyHints.edit :: earlyHints.finalCalls)

/-- The cache drops the final status, the edits of the rewriting miss it, the proxy and the access
log record the hints, and the attempt counts as begun. -/
theorem early_hints_latched :
    (statuses (overEarlyHints (.cache { maxBody := 1024 })).2.log).map Prod.fst = [103] ∧
      (statuses (overEarlyHints (.rewrite { setHeaders := [("Server", "lb")] })).2.log).map
        (fun status => (status.1, status.2.get "Server")) = [(103, "lb"), (503, "")] ∧
      (overEarlyHints (.capture {})).1.map Layer.recorded = [some 103] ∧
      (overEarlyHints (.access {})).1.map Layer.recorded = [some 103] ∧
      (Stack.feedAll (([.capture {}], { header := fun _ => [] }) : Stack stored)
        earlyHints.hintCalls).1.map Layer.wrote =
        [true] ∧
      ¬ Transparent [(.cache { maxBody := 1024 } : Layer stored)] (fun _ => []) earlyHints := by
  have hcache : (statuses (overEarlyHints (.cache { maxBody := 1024 })).2.log).map Prod.fst = [103] :=
    by decide
  refine ⟨hcache, by decide, by decide, by decide, by decide, fun htransparent => ?_⟩
  obtain ⟨header, hmem, -⟩ := htransparent.received
  have hcode : (503 : ℤ) ∈ (statuses (overEarlyHints (.cache { maxBody := 1024 })).2.log).map
      Prod.fst :=
    List.mem_map.mpr ⟨_, hmem, rfl⟩
  rw [hcache] at hcode
  exact absurd hcode (by decide)

end ReverseProxyLb.Writers
