import ReverseProxyLb.Base.Number
import ReverseProxyLb.Lib.Reader

/-! `wsConn` counts what it has read. The read that goes over the cap still hands out its
bytes, so a stream is cut off, but not at the cap. -/
namespace ReverseProxyLb.Proxy
open Lib

/-- `wsConn` over a connection with its own state. -/
structure WsConn (σ : Type) where
  conn : σ
  read : ℤ := 0
  closed : Bool := false

namespace WsConn
variable {σ : Type} (reader : Reader UInt8 σ) (maxBytes : ℤ) (size : ℕ+)

/-- `Read` into a buffer; the flag is an error or the end. -/
def readConn (w : WsConn σ) (k : ℕ) : List UInt8 × Bool × WsConn σ :=
  let (b, err, conn) := reader.read w.conn k
  if 0 < b.length ∧ 0 < maxBytes then
    let read := int64 (w.read + b.length)
    if maxBytes < read then (b, true, { conn := conn, read := read, closed := true })
    else (b, err, { w with conn := conn, read := read })
  else (b, err, { w with conn := conn })

/-- The copy loop with a buffer of the given size: what is forwarded, and the connection after. -/
def copy : ℕ → WsConn σ → List UInt8 × WsConn σ
  | 0, w => ([], w)
  | fuel + 1, w =>
    let (b, err, w') := readConn reader maxBytes w size
    if err then (b, w')
    else
      let (rest, w'') := copy fuel w'
      (b ++ rest, w'')

def copyAll (w : WsConn σ) : List UInt8 × WsConn σ :=
  copy reader maxBytes size (reader.size w.conn + 1) w

variable {maxBytes size} {w : WsConn σ}

theorem readConn_cases (hcap : 0 < maxBytes) (hfits : maxBytes + size ≤ Time.maxDuration)
    (hpos : 0 ≤ w.read) (hread : w.read ≤ maxBytes) :
    let b := (reader.read w.conn size).1
    let conn := (reader.read w.conn size).2.2
    (maxBytes < w.read + b.length ∧
        readConn reader maxBytes w size =
          (b, true, { conn := conn, read := w.read + b.length, closed := true })) ∨
      (w.read + b.length ≤ maxBytes ∧
        readConn reader maxBytes w size =
          (b, (reader.read w.conn size).2.1, { w with conn := conn, read := w.read + b.length })) := by
  intro b conn
  have hlen : b.length ≤ size := reader.length_read w.conn size
  have hcount : int64 (w.read + b.length) = w.read + b.length := int64_of_bounds (by omega) (by omega)
  by_cases hempty : b.length = 0
  · right
    refine ⟨by omega, ?_⟩
    simp [readConn, b, conn, hempty]
  · have hsome : 0 < b.length ∧ 0 < maxBytes := ⟨Nat.pos_of_ne_zero hempty, hcap⟩
    by_cases hover : maxBytes < w.read + b.length
    · left
      refine ⟨hover, ?_⟩
      simp only [readConn]
      rw [if_pos hsome, hcount, if_pos hover]
    · right
      refine ⟨not_lt.mp hover, ?_⟩
      simp only [readConn]
      rw [if_pos hsome, hcount, if_neg hover]

theorem copy_spec (hcap : 0 < maxBytes) (hfits : maxBytes + size ≤ Time.maxDuration) (fuel : ℕ)
    (w : WsConn σ) (hfuel : reader.size w.conn < fuel) (hpos : 0 ≤ w.read) (hread : w.read ≤ maxBytes)
    (hopen : w.closed = false) :
    let out := copy reader maxBytes size fuel w
    let total := w.read + (reader.content w.conn).length
    out.1 <+: reader.content w.conn ∧ out.2.closed = decide (maxBytes < total) ∧
      (total ≤ maxBytes → out.1 = reader.content w.conn) ∧
      (maxBytes < total → maxBytes < w.read + out.1.length ∧
        w.read + out.1.length ≤ maxBytes + size) := by
  induction fuel generalizing w with
  | zero => exact absurd hfuel (Nat.not_lt_zero _)
  | succ fuel ih =>
    have hcontent := reader.content_read w.conn size
    have hlen := reader.length_read w.conn size
    have hlength := congrArg List.length hcontent
    rw [List.length_append] at hlength
    simp only [copy]
    rcases readConn_cases reader hcap hfits hpos hread with ⟨hover, heq⟩ | ⟨hwithin, heq⟩
    · -- The read that goes over the cap is the last one.
      have htotal : maxBytes < w.read + (reader.content w.conn).length := by omega
      simp only [heq, if_true]
      exact ⟨⟨_, hcontent⟩, (decide_eq_true htotal).symm, fun h => absurd htotal (not_lt.mpr h),
        fun _ => ⟨hover, by omega⟩⟩
    · simp only [heq]
      cases hend : (reader.read w.conn size).2.1 with
      | true =>
        have hall := reader.content_end _ _ hend
        rw [hall, List.append_nil] at hcontent
        rw [hcontent] at hwithin
        simp only [if_true, hcontent, hopen]
        exact ⟨List.prefix_rfl, (decide_eq_false (not_lt.mpr hwithin)).symm, fun _ => trivial,
          fun h => absurd h (not_lt.mpr hwithin)⟩
      | false =>
        have hless := (reader.progress w.conn size).resolve_left (by simp [hend])
        obtain ⟨hstart, hclosed, hwhole, hcut⟩ := ih
          { w with
            conn := (reader.read w.conn size).2.2
            read := w.read + (reader.read w.conn size).1.length }
          (hless.trans_le (Nat.le_of_lt_succ hfuel)) (by dsimp only; omega) hwithin hopen
        have htotal : w.read + (reader.read w.conn size).1.length +
            (reader.content (reader.read w.conn size).2.2).length =
              w.read + (reader.content w.conn).length := by omega
        dsimp only at hstart hclosed hwhole hcut
        rw [htotal] at hclosed hwhole hcut
        simp only [Bool.false_eq_true, if_false, List.length_append]
        refine ⟨?_, hclosed, fun h => ?_, fun h => ?_⟩
        · rw [← hcontent]
          exact (List.prefix_append_right_inj _).mpr hstart
        · rw [hwhole h, hcontent]
        · have := hcut h
          omega

theorem copy_uncapped (hcap : maxBytes ≤ 0) (fuel : ℕ) (w : WsConn σ)
    (hfuel : reader.size w.conn < fuel) :
    (copy reader maxBytes size fuel w).1 = reader.content w.conn ∧
      (copy reader maxBytes size fuel w).2.closed = w.closed := by
  induction fuel generalizing w with
  | zero => exact absurd hfuel (Nat.not_lt_zero _)
  | succ fuel ih =>
    have hcontent := reader.content_read w.conn size
    have heq : readConn reader maxBytes w size =
        ((reader.read w.conn size).1, (reader.read w.conn size).2.1,
          { w with conn := (reader.read w.conn size).2.2 }) := by
      simp only [readConn]
      rw [if_neg fun h => absurd h.2 (not_lt.mpr hcap)]
    simp only [copy, heq]
    cases hend : (reader.read w.conn size).2.1 with
    | true =>
      rw [reader.content_end _ _ hend, List.append_nil] at hcontent
      simp [hcontent]
    | false =>
      have hless := (reader.progress w.conn size).resolve_left (by simp [hend])
      obtain ⟨hrest, hclosed⟩ := ih { w with conn := (reader.read w.conn size).2.2 }
        (hless.trans_le (Nat.le_of_lt_succ hfuel))
      simp only [Bool.false_eq_true, if_false]
      exact ⟨by rw [hrest, hcontent], hclosed⟩

/-- A stream within the cap, or without one, is forwarded as it is. A longer one is cut off after
more than the cap and at most one buffer more than it. -/
theorem copyAll_spec (reader : Reader UInt8 σ) (maxBytes : ℤ) (size : ℕ+) (conn : σ)
    (hfits : maxBytes + size ≤ Time.maxDuration) :
    let out := copyAll reader maxBytes size { conn := conn }
    let content := reader.content conn
    out.1 <+: content ∧
      (maxBytes ≤ 0 ∨ content.length ≤ maxBytes → out.1 = content ∧ out.2.closed = false) ∧
      (0 < maxBytes → maxBytes < content.length →
        maxBytes < out.1.length ∧ out.1.length ≤ maxBytes + size ∧ out.2.closed = true) := by
  intro out content
  by_cases hcap : 0 < maxBytes
  · obtain ⟨hstart, hclosed, hwhole, hcut⟩ := copy_spec reader hcap hfits (reader.size conn + 1)
      { conn := conn } (Nat.lt_succ_self _) le_rfl hcap.le rfl
    simp only [zero_add] at hstart hclosed hwhole hcut
    refine ⟨hstart, fun h => ?_, fun _ h => ⟨(hcut h).1, (hcut h).2, hclosed.trans (decide_eq_true h)⟩⟩
    have hwithin := h.resolve_left (not_le.mpr hcap)
    exact ⟨hwhole hwithin, hclosed.trans (decide_eq_false (not_lt.mpr hwithin))⟩
  · obtain ⟨hall, hclosed⟩ : out.1 = content ∧ out.2.closed = false :=
      copy_uncapped reader
        (not_lt.mp hcap) (reader.size conn + 1) { conn := conn } (Nat.lt_succ_self _)
    exact ⟨hall ▸ List.prefix_rfl, fun _ => ⟨hall, hclosed⟩, fun h => absurd h hcap⟩

/-- Six bytes under a cap of three, in reads of two, of which the second goes over the cap. -/
theorem copyAll_cut :
    let out := copyAll Reader.ofList 3 2 { conn := [1, 2, 3, 4, 5, 6] }
    out.1 = [1, 2, 3, 4] ∧ (3 : ℤ) < out.1.length ∧ out.1.length ≤ (3 : ℤ) + 2 ∧ out.2.closed = true :=
  ⟨by decide, (copyAll_spec Reader.ofList 3 2
    [1, 2, 3, 4, 5, 6] (by decide)).2.2 (by decide) (by decide)⟩

end WsConn
end ReverseProxyLb.Proxy
