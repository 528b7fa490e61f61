import ReverseProxyLb.Lib.Reader

/-! `Mirror` reads the beginning of a body to send a copy of it elsewhere, and puts what was
read in front of the rest. Nothing comes back from the shadow request. -/
namespace ReverseProxyLb.Middleware.Mirror
open Lib

structure MirrorConfig where
  enabled : Bool := false
  url : String := ""
  samplePercent : ℤ := 0

def mirrorBodyCap : ℕ := 2 ^ 20

/-- `intn` is the number below 100 that is drawn. -/
def sampleHit (percent intn : ℤ) : Bool :=
  if percent ≤ 0 then false else if 100 ≤ percent then true else intn < percent

/-- A request body: a reader and its state. -/
structure Body where
  State : Type
  reader : Reader UInt8 State
  state : State

namespace Body

def content (body : Body) : List UInt8 := body.reader.content body.state

def readAll (body : Body) (sizes : ℕ → ℕ+) : List UInt8 × Bool :=
  ((body.reader.readAll sizes body.state).1, (body.reader.readAll sizes body.state).2.1)

theorem readAll_eq (body : Body) (sizes : ℕ → ℕ+) : body.readAll sizes = (body.content, true) :=
  Prod.ext (body.reader.readAll_eq sizes body.state).1 (body.reader.readAll_eq sizes body.state).2

end Body

/-- The shadow request, as far as it depends on the body. -/
structure Shadow where
  url : String
  body : Option (List UInt8)
  deriving DecidableEq

section
variable (cfg : MirrorConfig) (intn : ℤ) (sizes : ℕ → ℕ+)

/-- What the body is replaced by, with the bytes for the shadow request; `sizes` are the buffers
of `io.ReadAll`. -/
def buffer (body : Body) : Body × Option (List UInt8) :=
  let limited := body.reader.limit.readAll sizes (body.state, mirrorBodyCap + 1)
  let b := limited.1
  let rest := limited.2.2.1
  if mirrorBodyCap < b.length then (⟨_, Reader.ofList.chain body.reader, (some b, rest)⟩, none)
  else (⟨_, Reader.ofList, b⟩, some b)

def mirror (body : Option Body) : Option Body × Option Shadow :=
  if !cfg.enabled || cfg.url = "" then (body, none)
  else if !sampleHit cfg.samplePercent intn then (body, none)
  else
    match body with
    | none => (none, some ⟨cfg.url, none⟩)
    | some body => (some (buffer sizes body).1, (buffer sizes body).2.map fun b => ⟨cfg.url, some b⟩)

theorem mirror_isSome (body : Option Body) : (mirror cfg intn sizes body).1.isSome = body.isSome := by
  unfold mirror
  split_ifs
  · rfl
  · rfl
  · cases body <;> rfl

theorem buffer_spec (body : Body) :
    (buffer sizes body).1.content = body.content ∧
      (buffer sizes body).2 = if body.content.length ≤ mirrorBodyCap then some body.content
        else none := by
  have hread := (body.reader.limit.readAll_eq sizes (body.state, mirrorBodyCap + 1)).1
  change _ = body.content.take (mirrorBodyCap + 1) at hread
  have hrest := body.reader.limit.readAll_append sizes (fun s => body.reader.content s.1)
    body.reader.limit_content_read (body.state, mirrorBodyCap + 1)
  unfold buffer
  dsimp only
  by_cases hlong : body.content.length ≤ mirrorBodyCap
  · rw [List.take_of_length_le (by omega)] at hread
    rw [hread, if_neg (by omega), if_pos hlong]
    exact ⟨rfl, rfl⟩
  · rw [if_pos (by rw [hread, List.length_take]; omega), if_neg hlong]
    exact ⟨hrest, rfl⟩

/-- Mirrored or not, the next handler reads the body and then its end. A shadow request has the
whole body. -/
theorem mirror_undisturbed (body : Option Body) :
    (mirror cfg intn sizes body).1.map (·.readAll) = body.map (fun b _ => (b.content, true)) ∧
      (mirror cfg intn sizes body).2 =
        if cfg.enabled = true ∧ cfg.url ≠ "" ∧ sampleHit cfg.samplePercent intn = true ∧
            ∀ b ∈ body, b.content.length ≤ mirrorBodyCap
          then some ⟨cfg.url, body.map (·.content)⟩ else none := by
  have hreads : ∀ b : Body, b.readAll = fun _ => (b.content, true) := fun b => funext b.readAll_eq
  unfold mirror
  by_cases hon : (!cfg.enabled || decide (cfg.url = "")) = true
  · rw [if_pos hon]
    refine ⟨by simp [hreads], (if_neg ?_).symm⟩
    rintro ⟨henabled, hurl, -⟩
    simp [henabled, hurl] at hon
  by_cases hhit : (!sampleHit cfg.samplePercent intn) = true
  · rw [if_neg hon, if_pos hhit]
    refine ⟨by simp [hreads], (if_neg ?_).symm⟩
    rintro ⟨-, -, hsampled, -⟩
    simp [hsampled] at hhit
  rw [if_neg hon, if_neg hhit]
  have hboth : cfg.enabled = true ∧ cfg.url ≠ "" := by simpa using hon
  have hsampled : sampleHit cfg.samplePercent intn = true := by simpa using hhit
  cases body with
  | none => simp [hboth, hsampled]
  | some body =>
    obtain ⟨hcontent, hshadow⟩ := buffer_spec sizes body
    refine ⟨by simp [hreads, hcontent], ?_⟩
    dsimp only
    rw [hshadow]
    by_cases hlong : body.content.length ≤ mirrorBodyCap <;> simp [hboth, hsampled, hlong]

end

/-- A body that arrives in two chunks is mirrored in one piece. -/
theorem mirror_undisturbed_chunks :
    (mirror { enabled := true, url := "http://shadow", samplePercent := 100 } 0 (fun _ => 512)
      (some ⟨_, Reader.ofChunks true, [[1, 2], [3]]⟩)).2 = some ⟨"http://shadow", some [1, 2, 3]⟩ := by
  rw [(mirror_undisturbed _ _ _ _).2, if_pos]
  · rfl
  · refine ⟨rfl, by decide, by decide, ?_⟩
    rintro _ ⟨⟩
    decide

end ReverseProxyLb.Middleware.Mirror
