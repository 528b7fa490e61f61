import ReverseProxyLb.Base.Text
import ReverseProxyLb.Lib.Layers

/-! The cache, the compression, the header rewriting, the proxy and the access log each wrap
the `http.ResponseWriter` they are given. All share the header map of the writer at the
bottom. -/
namespace ReverseProxyLb

namespace Header

def del (h : Header) (name : String) : Header :=
  fun k => if k = Text.canonicalHeaderKey name then [] else h k

def set (h : Header) (name value : String) : Header := fun k =>
  if k = Text.canonicalHeaderKey name then [value] else h k

def add (h : Header) (name value : String) : Header := fun k =>
  if k = Text.canonicalHeaderKey name then h k ++ [value] else h k

end Header

namespace Writers

abbrev Bytes := List UInt8

/-- The header map is edited, a method is called, or the handler has returned. -/
inductive WriterCall where
  | edit (f : Header → Header)
  | writeHeader (code : ℤ)
  | write (b : Bytes)
  | flush
  | close

/-- What the writer at the bottom receives; a status comes with the header of that moment. -/
inductive Received where
  | status (code : ℤ) (header : Header)
  | bytes (b : Bytes)
  | flush

def statuses (log : List Received) : List (ℤ × Header) :=
  log.filterMap fun r => match r with
    | .status code header => some (code, header)
    | _ => none

def bodyOf (log : List Received) : Bytes :=
  log.flatMap fun r => match r with
    | .bytes b => b
    | _ => []

structure Wire where
  header : Header
  log : List Received := []

def Wire.take (w : Wire) : WriterCall → Wire
  | .edit f => { w with header := f w.header }
  | .writeHeader code => { w with log := w.log ++ [.status code w.header] }
  | .write b => { w with log := w.log ++ [.bytes b] }
  | .flush => { w with log := w.log ++ [.flush] }
  | .close => w

theorem take_writes (w : Wire) (chunks : List Bytes) :
    (chunks.map WriterCall.write).foldl Wire.take w =
      { w with log := w.log ++ chunks.map .bytes } := by
  induction chunks generalizing w with
  | nil => simp
  | cons b chunks ih =>
    rw [List.map_cons, List.foldl_cons, ih]
    simp [Wire.take]

@[simp] theorem statuses_append (log log' : List Received) :
    statuses (log ++ log') = statuses log ++ statuses log' :=
  List.filterMap_append

@[simp] theorem bodyOf_append (log log' : List Received) :
    bodyOf (log ++ log') = bodyOf log ++ bodyOf log' :=
  List.flatMap_append

@[simp] theorem statuses_status (code : ℤ) (h : Header) : statuses [.status code h] = [(code, h)] :=
  rfl

@[simp] theorem statuses_flush : statuses [.flush] = [] := rfl

@[simp] theorem bodyOf_flush : bodyOf [.flush] = [] := rfl

@[simp] theorem statuses_bytes (chunks : List Bytes) : statuses (chunks.map .bytes) = [] := by
  induction chunks with
  | nil => rfl
  | cons b chunks ih => exact ih

@[simp] theorem bodyOf_bytes (chunks : List Bytes) : bodyOf (chunks.map .bytes) = chunks.flatten := by
  induction chunks with
  | nil => rfl
  | cons b chunks ih => exact congrArg (b ++ ·) ih

/-- `compress/gzip`: every call makes some writes on the writer it was created for. -/
structure Compressor where
  State : Type
  new : State
  write : State → Bytes → State × List Bytes
  flush : State → State × List Bytes
  close : State → List Bytes
  decompress : Bytes → Option Bytes

/-- The policy of `gzipResponseWriter`. -/
structure CompressionPolicy where
  allowTypes : List String := []
  minSize : ℤ := 0

structure GzipResponseWriter (gzip : Compressor) extends CompressionPolicy where
  gz : Option gzip.State := none
  wroteHeader : Bool := false
  useGzip : Bool := false
  deferring : Bool := false
  pendingCode : ℤ := 0
  buf : Bytes := []

def contentTypeAllowed (allow : List String) (h : Header) : Bool :=
  if allow = [] then true
  else
    let ct := h.get "Content-Type"
    if ct = "" then false
    else
      let mediaType := Text.toLower (Text.trimSpace ((Text.split ct ';').headD ""))
      allow.any fun lead => (Text.after? lead mediaType).isSome

def compressed (h : Header) : Header :=
  ((h.del "Content-Length").set "Content-Encoding" "gzip").add "Vary" "Accept-Encoding"

namespace GzipResponseWriter

variable {gzip : Compressor}

def decideAndWriteHeader (g : GzipResponseWriter gzip) (h : Header) (code : ℤ) :
    GzipResponseWriter gzip × List WriterCall :=
  if g.wroteHeader then (g, [])
  else if code = 101 ∨ code = 204 ∨ code = 304 then
    ({ g with wroteHeader := true, useGzip := false }, [.writeHeader code])
  else if h.get "Content-Encoding" ≠ "" then
    ({ g with wroteHeader := true, useGzip := false }, [.writeHeader code])
  else if ¬ contentTypeAllowed g.allowTypes h then
    ({ g with wroteHeader := true, useGzip := false }, [.writeHeader code])
  else
    ({ g with wroteHeader := true, useGzip := true, gz := some gzip.new },
      [.edit compressed, .writeHeader code])

def gzipEligiblePreBody (g : GzipResponseWriter gzip) (h : Header) : Bool :=
  if h.get "Content-Encoding" ≠ "" then false else contentTypeAllowed g.allowTypes h

def writeHeader (g : GzipResponseWriter gzip) (h : Header) (code : ℤ) :
    GzipResponseWriter gzip × List WriterCall :=
  if 0 < g.minSize ∧ !g.wroteHeader ∧ g.gzipEligiblePreBody h then
    ({ g with deferring := true, pendingCode := code }, [])
  else g.decideAndWriteHeader h code

def send (g : GzipResponseWriter gzip) (b : Bytes) : GzipResponseWriter gzip × List WriterCall :=
  if g.useGzip then
    match g.gz with
    | some gz => ({ g with gz := some (gzip.write gz b).1 }, (gzip.write gz b).2.map .write)
    | none => (g, [])
  else (g, [.write b])

def commit (g : GzipResponseWriter gzip) (h : Header) (gzipIt : Bool) :
    GzipResponseWriter gzip × List WriterCall :=
  if !g.deferring then (g, [])
  else
    let g := { g with deferring := false }
    let (g, out) :=
      if gzipIt then g.decideAndWriteHeader h g.pendingCode
      else ({ g with wroteHeader := true, useGzip := false }, [.writeHeader g.pendingCode])
    if g.buf = [] then (g, out)
    else
      let (g, body) := send { g with buf := [] } g.buf
      (g, out ++ body)

def writeDeferred (g : GzipResponseWriter gzip) (h : Header) (b : Bytes) :
    GzipResponseWriter gzip × List WriterCall :=
  let g := { g with buf := g.buf ++ b }
  if (g.buf.length : ℤ) < g.minSize then (g, []) else g.commit h true

def write (g : GzipResponseWriter gzip) (h : Header) (b : Bytes) :
    GzipResponseWriter gzip × List WriterCall :=
  if g.deferring then g.writeDeferred h b
  else if !g.wroteHeader then
    -- an implicit 200
    if 0 < g.minSize ∧ g.gzipEligiblePreBody h then
      writeDeferred { g with deferring := true, pendingCode := 200 } h b
    else
      let (g, out) := g.decideAndWriteHeader h 200
      let (g, body) := g.send b
      (g, out ++ body)
  else g.send b

/-- `g.gz.Flush()`, if the response is compressed. -/
def flushGzip (g : GzipResponseWriter gzip) : GzipResponseWriter gzip × List WriterCall :=
  if g.useGzip then
    match g.gz with
    | some gz => ({ g with gz := some (gzip.flush gz).1 }, (gzip.flush gz).2.map .write)
    | none => (g, [])
  else (g, [])

def flush (g : GzipResponseWriter gzip) (h : Header) : GzipResponseWriter gzip × List WriterCall :=
  let (g, out) := if g.deferring then g.commit h true else (g, [])
  let (g, body) := g.flushGzip
  (g, out ++ (body ++ [.flush]))

/-- `g.gz.Close()`, if the response is compressed. -/
def closeGzip (g : GzipResponseWriter gzip) : List WriterCall :=
  if g.useGzip then
    match g.gz with
    | some gz => (gzip.close gz).map .write
    | none => []
  else []

def close (g : GzipResponseWriter gzip) (h : Header) : GzipResponseWriter gzip × List WriterCall :=
  let (g, out) := if g.deferring then g.commit h false else (g, [])
  (g, out ++ g.closeGzip)

@[simp] theorem decideAndWriteHeader_policy (g : GzipResponseWriter gzip) (h : Header) (code : ℤ) :
    (g.decideAndWriteHeader h code).1.toCompressionPolicy = g.toCompressionPolicy := by
  unfold decideAndWriteHeader
  split_ifs <;> rfl

@[simp] theorem decideAndWriteHeader_buf (g : GzipResponseWriter gzip) (h : Header) (code : ℤ) :
    (g.decideAndWriteHeader h code).1.buf = g.buf := by
  unfold decideAndWriteHeader
  split_ifs <;> rfl

@[simp] theorem send_policy (g : GzipResponseWriter gzip) (b : Bytes) :
    (g.send b).1.toCompressionPolicy = g.toCompressionPolicy := by
  unfold send
  split_ifs
  · split <;> rfl
  · rfl

@[simp] theorem flushGzip_policy (g : GzipResponseWriter gzip) :
    g.flushGzip.1.toCompressionPolicy = g.toCompressionPolicy := by
  unfold flushGzip
  split_ifs
  · split <;> rfl
  · rfl

theorem commit_eq
    (g : GzipResponseWriter gzip) (h : Header) (gzipIt : Bool) (hd : g.deferring = true) :
    g.commit h gzipIt =
      let decided := if gzipIt then decideAndWriteHeader { g with deferring := false } h g.pendingCode
        else ({ g with deferring := false, wroteHeader := true, useGzip := false },
          [.writeHeader g.pendingCode])
      if g.buf = [] then decided
      else ((send { decided.1 with buf := [] } g.buf).1,
        decided.2 ++ (send { decided.1 with buf := [] } g.buf).2) := by
  cases gzipIt <;> simp [commit, hd]

@[simp] theorem commit_policy (g : GzipResponseWriter gzip) (h : Header) (gzipIt : Bool) :
    (g.commit h gzipIt).1.toCompressionPolicy = g.toCompressionPolicy := by
  by_cases hd : g.deferring = true
  · rw [commit_eq g h gzipIt hd]
    cases gzipIt <;> dsimp only <;> split_ifs <;> simp
  · simp [commit, hd]

def call (g : GzipResponseWriter gzip) (h : Header) :
    WriterCall → GzipResponseWriter gzip × List WriterCall
  | .edit f => (g, [.edit f])
  | .writeHeader code => g.writeHeader h code
  | .write b => g.write h b
  | .flush => g.flush h
  | .close => ((g.close h).1, (g.close h).2 ++ [.close])

end GzipResponseWriter

structure CacheCapture where
  maxBody : ℤ
  status : ℤ := 200
  wroteHeader : Bool := false
  body : Bytes := []
  overflow : Bool := false
  streamed : Bool := false

namespace CacheCapture

def writeHeader (c : CacheCapture) (code : ℤ) : CacheCapture × List WriterCall :=
  if c.wroteHeader then (c, [])
    else ({ c with wroteHeader := true, status := code }, [.writeHeader code])

def buffer (c : CacheCapture) (b : Bytes) : CacheCapture :=
  if !c.overflow && !c.streamed then
    if c.maxBody < c.body.length + b.length then { c with overflow := true, body := [] }
    else { c with body := c.body ++ b }
  else c

def call (c : CacheCapture) : WriterCall → CacheCapture × List WriterCall
  | .edit f => (c, [.edit f])
  | .writeHeader code => c.writeHeader code
  | .write b =>
    let (c, out) := if !c.wroteHeader then c.writeHeader 200 else (c, [])
    (c.buffer b, out ++ [.write b])
  | .flush => ({ c with streamed := true, body := [] }, [.flush])
  | .close => (c, [.close])

end CacheCapture

/-- The fields to set are a map; they are listed in the order of its iteration. -/
structure RewriteResponseWriter where
  setHeaders : List (String × String) := []
  removeHeaders : List String := []
  wroteHeader : Bool := false

namespace RewriteResponseWriter

def applyHeaders (r : RewriteResponseWriter) (h : Header) : Header :=
  r.setHeaders.foldl (fun h field => h.set field.1 field.2) (r.removeHeaders.foldl Header.del h)

def call (r : RewriteResponseWriter) : WriterCall → RewriteResponseWriter × List WriterCall
  | .edit f => (r, [.edit f])
  | .writeHeader code =>
    if !r.wroteHeader then ({ r with wroteHeader := true }, [.edit r.applyHeaders, .writeHeader code])
    else (r, [.writeHeader code])
  | .write b =>
    if !r.wroteHeader then ({ r with wroteHeader := true }, [.edit r.applyHeaders, .write b])
    else (r, [.write b])
  | .flush => (r, [.flush])
  | .close => (r, [.close])

end RewriteResponseWriter

/-- The writer of an attempt of the proxy. -/
structure CaptureWriter where
  wrote : Bool := false
  statusCode : ℤ := 0
  retryAfter : String := ""

def CaptureWriter.call (c : CaptureWriter) (h : Header) : WriterCall → CaptureWriter × List WriterCall
  | .edit f => (c, [.edit f])
  | .writeHeader code =>
    let c := if !c.wrote then { c with statusCode := code, retryAfter := h.get "Retry-After" } else c
    ({ c with wrote := true }, [.writeHeader code])
  | .write b =>
    let c := if !c.wrote then { c with statusCode := 200, retryAfter := h.get "Retry-After" } else c
    ({ c with wrote := true }, [.write b])
  | .flush =>
    let c := if !c.wrote then { c with statusCode := 200 } else c
    ({ c with wrote := true }, [.flush])
  | .close => (c, [.close])

structure CaptureResponseWriter where
  status : ℤ := 200
  bytes : ℕ := 0
  wroteHeader : Bool := false

def CaptureResponseWriter.call (c : CaptureResponseWriter) :
    WriterCall → CaptureResponseWriter × List WriterCall
  | .edit f => (c, [.edit f])
  | .writeHeader code =>
    (if !c.wroteHeader then { c with status := code, wroteHeader := true } else c, [.writeHeader code])
  | .write b => ({ c with wroteHeader := true, bytes := c.bytes + b.length }, [.write b])
  | .flush => (c, [.flush])
  | .close => (c, [.close])

inductive Layer (gzip : Compressor) where
  | cache (c : CacheCapture)
  | gzip (g : GzipResponseWriter gzip)
  | rewrite (r : RewriteResponseWriter)
  | capture (c : CaptureWriter)
  | access (c : CaptureResponseWriter)

def Layer.call {gz : Compressor} (l : Layer gz) (w : Wire) (o : WriterCall) :
    Layer gz × List WriterCall :=
  match l with
  | .cache c => ((c.call o).1 |> .cache, (c.call o).2)
  | .gzip g => ((g.call w.header o).1 |> .gzip, (g.call w.header o).2)
  | .rewrite r => ((r.call o).1 |> .rewrite, (r.call o).2)
  | .capture c => ((c.call w.header o).1 |> .capture, (c.call w.header o).2)
  | .access c => ((c.call o).1 |> .access, (c.call o).2)

abbrev Stack (gz : Compressor) := List (Layer gz) × Wire

def Stack.feed {gz : Compressor} : Stack gz → WriterCall → Stack gz :=
  Lib.Layers.feed Layer.call Wire.take

def Stack.feedAll {gz : Compressor} : Stack gz → List WriterCall → Stack gz :=
  Lib.Layers.feedAll Layer.call Wire.take

end Writers
end ReverseProxyLb
