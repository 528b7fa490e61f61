import Mathlib.Algebra.Ring.Parity
import Mathlib.Data.List.Induction

/-! The three replacements of `escapeLabelValue` act byte by byte, so the escaped value can
be read back and no quote of it ends the label. -/
namespace ReverseProxyLb.Metrics.Labels

def backslash : UInt8 := 92
def quote : UInt8 := 34
def newline : UInt8 := 10
def letterN : UInt8 := 110

/-- `strings.ReplaceAll` for a text of one byte. -/
def replaceAll (v : List UInt8) (old : UInt8) (new : List UInt8) : List UInt8 :=
  v.flatMap fun c => if c = old then new else [c]

def escapeLabelValue (v : List UInt8) : List UInt8 :=
  let v := replaceAll v backslash [backslash, backslash]
  let v := replaceAll v quote [backslash, quote]
  replaceAll v newline [backslash, letterN]

def unescape (c : UInt8) : Option UInt8 :=
  if c = backslash then some backslash
  else if c = quote then some quote
  else if c = letterN then some newline
  else none

def decode : List UInt8 → Option (List UInt8)
  | [] => some []
  | [c] => if c = backslash then none else some [c]
  | c :: d :: rest =>
    if c = backslash then (unescape d).bind fun e => (decode rest).map (e :: ·)
    else (decode (d :: rest)).map (c :: ·)

/-- The value of a label whose opening quote has been read, with what follows its closing quote. -/
def readLabel : List UInt8 → Option (List UInt8 × List UInt8)
  | [] => none
  | [c] => if c = quote then some ([], []) else none
  | c :: d :: rest =>
    if c = quote then some ([], d :: rest)
    else if c = backslash then (unescape d).bind fun e => (readLabel rest).map (Prod.map (e :: ·) id)
    else (readLabel (d :: rest)).map (Prod.map (c :: ·) id)

def trailing (l : List UInt8) : ℕ := (l.reverse.takeWhile (· = backslash)).length

@[simp] theorem trailing_nil : trailing [] = 0 := rfl

@[simp] theorem trailing_concat (l : List UInt8) (c : UInt8) :
    trailing (l ++ [c]) = if c = backslash then trailing l + 1 else 0 := by
  unfold trailing
  by_cases h : c = backslash <;> simp [h]

def Guarded (l : List UInt8) : Prop := ∀ p s, l = p ++ quote :: s → Odd (trailing p)

@[simp] theorem guarded_nil : Guarded [] := by simp [Guarded]

@[simp] theorem guarded_concat (l : List UInt8) (c : UInt8) :
    Guarded (l ++ [c]) ↔ Guarded l ∧ (c = quote → Odd (trailing l)) := by
  constructor
  · intro h
    refine ⟨fun p s hl => h p (s ++ [c]) (by simp [hl]), ?_⟩
    rintro rfl
    exact h l [] rfl
  · rintro ⟨hl, hc⟩ p s hp
    -- The quote is the last byte or one of those before.
    induction s using List.reverseRecOn with
    | nil =>
      obtain ⟨rfl, hq⟩ := List.append_inj' hp rfl
      exact hc (List.singleton_inj.mp hq)
    | append_singleton s d =>
      rw [← List.cons_append, ← List.append_assoc] at hp
      exact hl p s (List.append_inj_left' hp rfl)

def encode (c : UInt8) : List UInt8 :=
  if c = backslash then [backslash, backslash]
  else if c = quote then [backslash, quote]
  else if c = newline then [backslash, letterN]
  else [c]

theorem escapeLabelValue_eq (v : List UInt8) : escapeLabelValue v = v.flatMap encode := by
  unfold escapeLabelValue
  simp only [replaceAll, List.flatMap_assoc]
  congr 1
  funext c
  -- The backslashes that a pass puts in are not touched by those after it.
  by_cases hb : c = backslash
  · subst hb
    decide
  by_cases hq : c = quote
  · subst hq
    decide
  simp [encode, hb, hq]

@[simp] theorem escapeLabelValue_nil : escapeLabelValue [] = [] := rfl

@[simp] theorem escapeLabelValue_cons (c : UInt8) (v : List UInt8) :
    escapeLabelValue (c :: v) = encode c ++ escapeLabelValue v := by
  simp [escapeLabelValue_eq]

@[simp] theorem escapeLabelValue_concat (v : List UInt8) (c : UInt8) :
    escapeLabelValue (v ++ [c]) = escapeLabelValue v ++ encode c := by
  simp [escapeLabelValue_eq]

theorem encode_cases (c : UInt8) :
    (∃ d, encode c = [backslash, d] ∧ unescape d = some c ∧ d ≠ newline) ∨
      encode c = [c] ∧ c ≠ backslash ∧ c ≠ quote ∧ c ≠ newline := by
  unfold encode
  split_ifs with hb hq hn
  · exact .inl ⟨backslash, rfl, congrArg some hb.symm, by decide⟩
  · exact .inl ⟨quote, rfl, congrArg some hq.symm, by decide⟩
  · exact .inl ⟨letterN, rfl, congrArg some hn.symm, by decide⟩
  · exact .inr ⟨rfl, hb, hq, hn⟩

theorem newline_not_mem (v : List UInt8) : newline ∉ escapeLabelValue v := by
  rw [escapeLabelValue_eq]
  simp only [List.mem_flatMap, not_exists, not_and]
  intro c _ h
  obtain ⟨d, he, -, hd⟩ | ⟨he, -, -, hn⟩ := encode_cases c
  · simp [he, hd.symm, show newline ≠ backslash by decide] at h
  · simp [he, hn.symm] at h

theorem guarded_not_odd (v : List UInt8) :
    Guarded (escapeLabelValue v) ∧ ¬ Odd (trailing (escapeLabelValue v)) := by
  induction v using List.reverseRecOn with
  | nil => simp
  | append_singleton v c ih =>
    obtain ⟨hg, he⟩ := ih
    rw [Nat.not_odd_iff_even] at he
    rw [escapeLabelValue_concat]
    unfold encode
    have hpair (d : UInt8) : escapeLabelValue v ++ [backslash, d] =
        escapeLabelValue v ++ [backslash] ++ [d] := by simp
    have hbq : backslash ≠ quote := by decide
    split_ifs with hb hq hn
    · rw [hpair]
      simp [-List.append_assoc, hg, hbq, he.add_one.add_one]
    · rw [hpair]
      simp [-List.append_assoc, hg, hbq, hbq.symm, he.add_one]
    · rw [hpair]
      simp [-List.append_assoc, hg, hbq,
        show letterN ≠ quote by decide, show letterN ≠ backslash by decide]
    · simp [hg, hb, hq]

theorem decode_escape (v : List UInt8) : decode (escapeLabelValue v) = some v := by
  induction v with
  | nil => rfl
  | cons c v ih =>
    rw [escapeLabelValue_cons]
    obtain ⟨d, he, hd, -⟩ | ⟨he, hb, -, -⟩ := encode_cases c
    · simp [he, decode, hd, ih]
    · rw [he, List.singleton_append]
      cases hv : escapeLabelValue v with
      | nil => simp_all [decode]
      | cons d rest => simp_all [decode]

theorem readLabel_escape (v rest : List UInt8) :
    readLabel (escapeLabelValue v ++ quote :: rest) = some (v, rest) := by
  induction v with
  | nil => cases rest <;> rfl
  | cons c v ih =>
    rw [escapeLabelValue_cons, List.append_assoc]
    obtain ⟨d, he, hd, -⟩ | ⟨he, hb, hq, -⟩ := encode_cases c
    · simp [he, readLabel, hd, ih, show backslash ≠ quote by decide]
    · rw [he, List.singleton_append]
      cases hv : escapeLabelValue v ++ quote :: rest with
      | nil => simp at hv
      | cons d rest' => simp_all [readLabel]

/-- An escaped value has no newline, does not end the label, and is read back as the value. -/
theorem escapeLabelValue_invertible (v : List UInt8) :
    newline ∉ escapeLabelValue v ∧
      (∀ p s, escapeLabelValue v = p ++ quote :: s → Odd (trailing p)) ∧
      ¬ Odd (trailing (escapeLabelValue v)) ∧
      decode (escapeLabelValue v) = some v ∧
      (∀ w, escapeLabelValue w = escapeLabelValue v → w = v) ∧
      ∀ rest, readLabel (escapeLabelValue v ++ quote :: rest) = some (v, rest) := by
  obtain ⟨hg, he⟩ := guarded_not_odd v
  refine ⟨newline_not_mem v, hg, he, decode_escape v, fun w h => ?_,
    readLabel_escape v⟩
  have hw := decode_escape w
  rw [h, decode_escape v] at hw
  exact (Option.some.inj hw).symm

end ReverseProxyLb.Metrics.Labels
