import ReverseProxyLb.Cache.Replay
import ReverseProxyLb.Writers.EarlyHints

/-! The cache is modelled with a capturing writer that keeps texts and owns the connection;
among the wrappers it keeps bytes and passes calls on. The two keep and send the same
response. -/
namespace ReverseProxyLb.Writers

def textBytes (s : String) : Bytes := s.toUTF8.data.toList

@[simp] theorem textBytes_empty : textBytes "" = [] := rfl

@[simp] theorem textBytes_append (s t : String) : textBytes (s ++ t) = textBytes s ++ textBytes t := by
  simp [textBytes, String.toUTF8]

@[simp] theorem length_textBytes (s : String) : (textBytes s).length = s.utf8ByteSize := by
  simp [textBytes, String.toUTF8]

/-- What the handler does, as a call; no wrapper sees the connection taken over. -/
def callOf : Cache.WriterOp → Option WriterCall
  | .header name values =>
    some (.edit fun h k => if k = Text.canonicalHeaderKey name then values else h k)
  | .writeHeader code => some (.writeHeader code)
  | .write b => some (.write (textBytes b))
  | .flush => some .flush
  | .hijack => none

/-- The response begins with the first thing received; flushing begins it with a 200. -/
def Begins : List Received → Option (ℤ × Header) → Prop
  | [], sent => sent = none
  | .status code h :: _, sent => sent = some (code, h)
  | .flush :: _, sent => ∃ h, sent = some (200, h)
  | .bytes _ :: _, _ => False

section Begins

variable {log : List Received} {wire : Cache.Wire}

theorem Begins.append (h : Begins log wire.sent) (hsent : wire.sent ≠ none) (more : List Received) :
    Begins (log ++ more) wire.sent := by
  cases log with
  | nil => exact absurd h hsent
  | cons r log => cases r <;> exact h

theorem writeHeader_sent_ne_none (code : ℤ) (header : Header) :
    (wire.writeHeader code header).sent ≠ none := by
  unfold Cache.Wire.writeHeader
  split_ifs with hsent
  · exact Option.isSome_iff_ne_none.mp hsent
  · simp

theorem Begins.writeHeader (h : Begins log wire.sent) {r : Received} {code : ℤ} {header : Header}
    (hr : Begins [r] (some (code, header))) :
    Begins (log ++ [r]) (wire.writeHeader code header).sent := by
  unfold Cache.Wire.writeHeader
  split_ifs with hsent
  · exact h.append (Option.isSome_iff_ne_none.mp hsent) [r]
  · cases log with
    | nil => exact hr
    | cons r' log =>
      -- what was received before has begun a response
      cases r' <;> simp_all [Begins]

end Begins

/-- The wrapper and the writer below it stand where the cache's model stands. -/
structure Agrees (maxBody : ℤ) (c : Cache.CacheCapture) (l : CacheCapture) (w : Wire) : Prop where
  maxBody : l.maxBody = maxBody
  status : l.status = c.status
  wroteHeader : l.wroteHeader = c.wroteHeader
  overflow : l.overflow = c.overflow
  streamed : l.streamed = c.streamed
  body : l.body = textBytes c.body
  header : w.header = c.header
  passed : bodyOf w.log = textBytes c.wire.body
  begins : Begins w.log c.wire.sent
  begun : c.wroteHeader = true → c.wire.sent ≠ none

section Agrees

variable {maxBody : ℤ} {c : Cache.CacheCapture} {l : CacheCapture} {w : Wire}

theorem Agrees.writeHeader (h : Agrees maxBody c l w) (code : ℤ) :
    Agrees maxBody (c.writeHeader code) (l.writeHeader code).1
      ((l.writeHeader code).2.foldl Wire.take w) := by
  unfold CacheCapture.writeHeader Cache.CacheCapture.writeHeader
  rw [h.wroteHeader]
  split_ifs
  · exact h
  · refine ⟨h.maxBody, rfl, rfl, h.overflow, h.streamed, h.body, h.header, ?_, ?_, fun _ => ?_⟩
    · simpa [Wire.take, bodyOf] using h.passed
    · refine h.begins.writeHeader ?_
      rw [h.header]
      rfl
    · exact writeHeader_sent_ne_none code c.header

theorem Agrees.buffer (h : Agrees maxBody c l w) (b : String) :
    Agrees maxBody (c.buffer maxBody b) (l.buffer (textBytes b)) w := by
  unfold CacheCapture.buffer Cache.CacheCapture.buffer
  rw [h.overflow, h.streamed, h.maxBody, h.body, length_textBytes, length_textBytes]
  split_ifs
  · exact ⟨rfl, h.status, h.wroteHeader, rfl, rfl, rfl, h.header, h.passed, h.begins, h.begun⟩
  · exact ⟨rfl, h.status, h.wroteHeader, rfl, rfl, (textBytes_append _ _).symm, h.header, h.passed,
      h.begins, h.begun⟩
  · exact h

theorem Agrees.pass (h : Agrees maxBody c l w) (hw : c.wroteHeader = true) (b : String) :
    Agrees maxBody { c with wire := { c.wire with body := c.wire.body ++ b } } l
      (w.take (.write (textBytes b))) :=
  { h with
    passed := by
      rw [textBytes_append, ← h.passed]
      simp [Wire.take, bodyOf]
    begins := h.begins.append (h.begun hw) _ }

theorem Agrees.write (h : Agrees maxBody c l w) (b : String) :
    Agrees maxBody (c.write maxBody b) (l.call (.write (textBytes b))).1
      ((l.call (.write (textBytes b))).2.foldl Wire.take w) := by
  have hwrote : ∀ c' : Cache.CacheCapture, (c'.buffer maxBody b).wroteHeader = c'.wroteHeader := by
    intro c'
    unfold Cache.CacheCapture.buffer
    split_ifs <;> rfl
  unfold CacheCapture.call Cache.CacheCapture.write
  cases hw : c.wroteHeader with
  | true =>
    have hl : l.wroteHeader = true := h.wroteHeader.trans hw
    simpa [hw, hl] using (h.buffer b).pass ((hwrote c).trans hw) b
  | false =>
    have hl : l.wroteHeader = false := h.wroteHeader.trans hw
    have hnow : (c.writeHeader 200).wroteHeader = true := by simp [Cache.CacheCapture.writeHeader, hw]
    simpa [hw, hl] using ((h.writeHeader 200).buffer b).pass ((hwrote _).trans hnow) b

theorem Agrees.flush (h : Agrees maxBody c l w) :
    Agrees maxBody c.flush (l.call .flush).1 ((l.call .flush).2.foldl Wire.take w) where
  maxBody := h.maxBody
  status := h.status
  wroteHeader := h.wroteHeader
  overflow := h.overflow
  streamed := rfl
  body := rfl
  header := h.header
  passed := by
    change bodyOf (w.log ++ [.flush]) = textBytes (c.wire.writeHeader 200 c.header).body
    simpa using h.passed
  begins := h.begins.writeHeader ⟨c.header, rfl⟩
  begun _ := writeHeader_sent_ne_none 200 c.header

theorem Agrees.op (gz : Compressor) (h : Agrees maxBody c l w) (op : Cache.WriterOp) :
    ∃ l' w', Stack.feedAll (([.cache l], w) : Stack gz) (callOf op).toList = ([.cache l'], w') ∧
      Agrees maxBody (c.op maxBody op) l' w' := by
  have hcall : ∀ o, Stack.feedAll (([.cache l], w) : Stack gz) [o] =
      ([.cache (l.call o).1], (l.call o).2.foldl Wire.take w) := feed_single (.cache l) w
  cases op with
  | header name values =>
    refine ⟨_, _, hcall _, { h with header := ?_ }⟩
    change (fun k => if k = Text.canonicalHeaderKey name then values else w.header k) = _
    rw [h.header]
    rfl
  | writeHeader code => exact ⟨_, _, hcall _, h.writeHeader code⟩
  | write b => exact ⟨_, _, hcall _, h.write b⟩
  | flush => exact ⟨_, _, hcall _, h.flush⟩
  | hijack => exact ⟨l, w, rfl, { h with }⟩

end Agrees

/-- Whatever a handler does, the two keep and send the same. -/
theorem handle_agrees (gz : Compressor) (maxBody : ℤ) (ops : List Cache.WriterOp) :
    ∃ l w, Stack.feedAll (([.cache { maxBody }], { header := fun _ => [] }) : Stack gz)
        (ops.filterMap callOf) = ([.cache l], w) ∧
      Agrees maxBody (Cache.CacheCapture.handle maxBody ops) l w := by
  induction ops using List.reverseRecOn with
  | nil => exact ⟨_, _, rfl, rfl, rfl, rfl, rfl, rfl, rfl, rfl, rfl, rfl, nofun⟩
  | append_singleton ops op ih =>
    obtain ⟨l, w, hfeed, hagrees⟩ := ih
    obtain ⟨l', w', hfeed', hagrees'⟩ := hagrees.op gz op
    refine ⟨l', w', ?_, ?_⟩
    · have hcalls : (ops ++ [op]).filterMap callOf = ops.filterMap callOf ++ (callOf op).toList := by
        cases hcall : callOf op <;> simp [hcall]
      rw [hcalls]
      exact (Lib.Layers.feedAll_append ..).trans ((congrArg (Stack.feedAll · _) hfeed).trans hfeed')
    · simpa [Cache.CacheCapture.handle] using hagrees'

end ReverseProxyLb.Writers
