import ReverseProxyLb.Proxy.Request
import ReverseProxyLb.Lib.Account
import ReverseProxyLb.Lib.Progress

/-! Reservations and admissions as accounts of the pool of threads that handles a request, and the
ghost ledger of each thread: what it has reserved, owes a result for, or has stranded. -/
namespace ReverseProxyLb.Proxy
open Lib

def tally (l : List Backend) : Backend → ℤ := (l.map fun b => Pi.single b 1).sum

@[simp] theorem tally_nil : tally [] = 0 := rfl

@[simp] theorem tally_cons (b : Backend) (l : List Backend) :
    tally (b :: l) = Pi.single b 1 + tally l := by simp [tally]

@[simp] theorem tally_append (l l' : List Backend) : tally (l ++ l') = tally l + tally l' := by
  simp [tally]

theorem tally_apply (l : List Backend) (b : Backend) : tally l b = l.count b := by
  induction l with
  | nil => rfl
  | cons a l ih =>
    by_cases h : a = b
    · subst h
      simp [ih, add_comm]
    · simp [ih, h, Ne.symm h]

theorem tally_nonneg (l : List Backend) : 0 ≤ tally l := fun b => by simp [tally_apply]

theorem tally_eq_zero {l : List Backend} : tally l = 0 ↔ l = [] := by
  constructor
  · intro h
    rw [List.eq_nil_iff_forall_not_mem]
    intro b hb
    have hcount : tally l b = 0 := by rw [h]; rfl
    rw [tally_apply] at hcount
    have hpos : 0 < l.count b := List.count_pos_iff.mpr hb
    omega
  · rintro rfl
    exact tally_nil

def connDelta : Happening → Backend → ℤ
  | .env (.incrConn b) _ => Pi.single b 1
  | .env (.decrConn b) _ => -Pi.single b 1
  | _ => 0

def admitDelta : Happening → Backend → ℤ
  | .env (.allow b) err => if Option.isNone (show Option String from err) then Pi.single b 1 else 0
  | .env (.recordSuccess b) _ | .env (.recordFailure b) _ => -Pi.single b 1
  | _ => 0

def strandedBy : Happening → List Backend
  | .env (.note (.fellBack b)) _ => [b]
  | .env (.note (.unlaunched extras)) _ => extras
  | .env (.serveHTTP _ b) reply =>
    match (show Reply from reply) with
    | .panicked _ => [b]
    | .served _ _ _ _ _ => []
  | _ => []

def isAbort : Happening → Bool
  | .env (.serveHTTP .recorder _) reply =>
    match (show Reply from reply) with
    | .panicked _ => true
    | .served _ _ _ _ _ => false
  | _ => false

@[simps] def connAccount : Account Op Ans Backend HedgeResult (Backend → ℤ) where
  delta := connDelta
  carry b := Pi.single b 1

/-- `k` is one if there is a breaker and zero otherwise. -/
@[simps] def admitAccount (k : ℤ) : Account Op Ans Backend HedgeResult (Backend → ℤ) where
  delta := admitDelta
  carry b := k • Pi.single b 1

@[ext]
structure Ledger where
  conns : Backend → ℤ
  admissions : Backend → ℤ
  stranded : Backend → ℤ
  launched : ℕ
  received : ℕ
  sent : ℕ
  aborted : ℕ

namespace Ledger

def upd (k : ℤ) (g : Ledger) (e : Happening) : Ledger where
  conns := g.conns + connAccount.change e
  admissions := g.admissions + (admitAccount k).change e
  stranded := g.stranded + k • tally (strandedBy e)
  launched := g.launched + if e.isFork then 1 else 0
  received := g.received + if e.isRecv then 1 else 0
  sent := g.sent + if e.isSend then 1 else 0
  aborted := g.aborted + if isAbort e then 1 else 0

/-- The ledger of a thread that has reserved `held`, owes results for `owed`, and
has stranded the admissions of `lost`. -/
def of (k : ℤ) (held owed lost : List Backend) (launched received sent : ℕ) : Ledger where
  conns := tally held
  admissions := k • (tally owed + tally lost)
  stranded := k • tally lost
  launched := launched
  received := received
  sent := sent
  aborted := 0

variable {k : ℤ} {held owed lost : List Backend} {m n j : ℕ} {b : Backend}

def Neutral : Op → Prop
  | .incrConn _ | .decrConn _ | .allow _ | .recordSuccess _ | .recordFailure _ | .serveHTTP _ _ =>
    False
  | .note (.visit _) => True
  | .note _ => False
  | _ => True

theorem upd_neutral {g : Ledger} {o : Op} (h : Neutral o) (a : Ans o) : g.upd k (.env o a) = g := by
  have hc : connDelta (.env o a) = 0 := by cases o <;> simp_all [Neutral, connDelta]
  have ha : admitDelta (.env o a) = 0 := by cases o <;> simp_all [Neutral, admitDelta]
  have hs : strandedBy (.env o a) = [] := by
    cases o with
    | note n => cases n <;> simp_all [Neutral, strandedBy]
    | serveHTTP => exact h.elim
    | _ => rfl
  have hb : isAbort (.env o a) = false := by cases o <;> simp_all [Neutral, isAbort]
  ext <;> simp [upd, Account.change, hc, ha, hs, hb, Event.forked, Event.isFork, Event.isRecv,
    Event.isSend]

attribute [local simp] upd of Account.change connDelta admitDelta strandedBy isAbort Event.forked
  Event.isFork Event.isRecv Event.isSend

theorem upd_incrConn (a : Unit) : (of k held owed lost m n j).upd k (.env (.incrConn b) a) =
    of k (b :: held) owed lost m n j := by
  ext <;> simp [add_comm]

theorem upd_decrConn (a : Unit) : (of k (b :: held) owed lost m n j).upd k (.env (.decrConn b) a) =
    of k held owed lost m n j := by
  ext <;> simp

theorem upd_allow (hk : k = 1) (err : Option String) :
    (of k held owed lost m n j).upd k (.env (.allow b) err) =
      of k held (if err.isNone then b :: owed else owed) lost m n j := by
  subst hk
  cases err with
  | none =>
    ext <;> simp
    ring
  | some _ => ext <;> simp

theorem upd_recordSuccess (hk : k = 1) (a : Unit) :
    (of k held (b :: owed) lost m n j).upd k (.env (.recordSuccess b) a) =
      of k held owed lost m n j := by
  subst hk
  ext <;> simp
  ring

theorem upd_recordFailure (hk : k = 1) (a : Unit) :
    (of k held (b :: owed) lost m n j).upd k (.env (.recordFailure b) a) =
      of k held owed lost m n j := by
  subst hk
  ext <;> simp
  ring

theorem upd_fork : (of k (b :: held) (b :: owed) lost m n j).upd k (.fork b) =
    of k held owed lost (m + 1) n j := by
  ext <;> simp
  ring

theorem upd_recv (hr : HedgeResult) : (of k held owed lost m n j).upd k (.recv hr) =
    of k held owed lost m (n + 1) j := by
  ext <;> simp

theorem upd_send (hr : HedgeResult) : (of k held owed lost m n j).upd k (.send hr) =
    of k held owed lost m n (j + 1) := by
  ext <;> simp

theorem upd_timeout : (of k held owed lost m n j).upd k .timeout = of k held owed lost m n j := by
  ext <;> simp

theorem upd_fellBack (a : Unit) :
    (of k held (b :: owed) lost m n j).upd k (.env (.note (.fellBack b)) a) =
    of k held owed (b :: lost) m n j := by
  ext <;> simp <;> ring

theorem upd_unlaunched (extras : List Backend) (a : Unit) :
    (of k held (extras ++ owed) lost m n j).upd k (.env (.note (.unlaunched extras)) a) =
      of k held owed (extras ++ lost) m n j := by
  ext <;> simp <;> ring

theorem upd_panicked (wrote : Bool) :
    (of k held (b :: owed) lost m n j).upd k (.env (.serveHTTP .client b) (.panicked wrote)) =
      of k held owed (b :: lost) m n j := by
  ext <;> simp <;> ring

theorem upd_served {g : Ledger} (w : Writer) (err : Option UpstreamError) (wrote : Bool) (code ra : ℤ)
    (content : Content) : g.upd k (.env (.serveHTTP w b) (.served err wrote code ra content)) = g := by
  cases w <;> ext <;> simp

end Ledger
end ReverseProxyLb.Proxy
