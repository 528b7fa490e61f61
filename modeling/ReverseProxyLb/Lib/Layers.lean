import Mathlib.Tactic

/-! Layers over a sink. A call on a layer makes any number of calls on the layer below it,
each of which runs to its end before the next; the calls of the last layer go to the sink.
-/
namespace ReverseProxyLb.Lib.Layers

variable {L S O : Type*} (call : L → S → O → L × List O) (take : S → O → S)

/-- A call on at most `n` layers. -/
def feedN : ℕ → List L × S → O → List L × S
  | n + 1, (l :: ls, s), o =>
    let below := (call l s o).2.foldl (feedN n) (ls, s)
    ((call l s o).1 :: below.1, below.2)
  | _, (ls, s), o => (ls, take s o)

def feed (q : List L × S) (o : O) : List L × S := feedN call take q.1.length q o

def feedAll (q : List L × S) (os : List O) : List L × S := os.foldl (feed call take) q

theorem map_feedN {T : Type*} {f : L → T} (hf : ∀ l s o, f (call l s o).1 = f l) (n : ℕ)
    (q : List L × S) (o : O) :
    (feedN call take n q o).1.map f = q.1.map f := by
  induction n generalizing q o with
  | zero => rfl
  | succ n ih =>
    obtain ⟨ls, s⟩ := q
    cases ls with
    | nil => rfl
    | cons l ls =>
      have hfold : ∀ (os : List O) (q : List L × S),
          (os.foldl (feedN call take n) q).1.map f = q.1.map f := by
        intro os
        induction os with
        | nil => exact fun q => rfl
        | cons o os ihos => exact fun q => (ihos _).trans (ih q o)
      simp only [feedN, List.map_cons, hf, hfold]

theorem length_feedN (n : ℕ) (q : List L × S) (o : O) :
    (feedN call take n q o).1.length = q.1.length := by
  have hmap := map_feedN call take (f := fun _ => ()) (fun _ _ _ => rfl) n q o
  simpa using congrArg List.length hmap

theorem foldl_feedN (os : List O) (q : List L × S) {n : ℕ} (hn : q.1.length = n) :
    os.foldl (feedN call take n) q = feedAll call take q os := by
  induction os generalizing q with
  | nil => rfl
  | cons o os ih =>
    subst hn
    exact ih _ (length_feedN call take _ q o)

@[simp] theorem feed_nil (s : S) (o : O) : feed call take ([], s) o = ([], take s o) := rfl

theorem feed_cons (l : L) (ls : List L) (s : S) (o : O) : feed call take (l :: ls, s) o =
    ((call l s o).1 :: (feedAll call take (ls, s) (call l s o).2).1,
      (feedAll call take (ls, s) (call l s o).2).2) := by
  change feedN call take (ls.length + 1) (l :: ls, s) o = _
  simp only [feedN, foldl_feedN call take _ (ls, s) rfl]

@[simp] theorem feedAll_nil (q : List L × S) : feedAll call take q [] = q := rfl

@[simp] theorem feedAll_cons (q : List L × S) (o : O) (os : List O) :
    feedAll call take q (o :: os) = feedAll call take (feed call take q o) os := rfl

theorem feedAll_append (q : List L × S) (os os' : List O) :
    feedAll call take q (os ++ os') = feedAll call take (feedAll call take q os) os' := by
  simp [feedAll, List.foldl_append]

def single (q : L × S) (o : O) : L × S := ((call q.1 q.2 o).1, (call q.1 q.2 o).2.foldl take q.2)

theorem feedAll_sink (s : S) (os : List O) : feedAll call take ([], s) os = ([], os.foldl take s) := by
  induction os generalizing s with
  | nil => rfl
  | cons o os ih => exact ih _

theorem feedAll_singleton (l : L) (s : S) (os : List O) : feedAll call take ([l], s) os =
    ([(os.foldl (single call take) (l, s)).1], (os.foldl (single call take) (l, s)).2) := by
  induction os generalizing l s with
  | nil => rfl
  | cons o os ih =>
    rw [feedAll_cons, feed_cons, feedAll_sink]
    exact ih _ _

theorem length_feed (q : List L × S) (o : O) : (feed call take q o).1.length = q.1.length :=
  length_feedN ..

theorem map_feedAll {T : Type*} {f : L → T} (hf : ∀ l s o, f (call l s o).1 = f l) (q : List L × S)
    (os : List O) :
    (feedAll call take q os).1.map f = q.1.map f := by
  induction os generalizing q with
  | nil => rfl
  | cons o os ih => exact (ih _).trans (map_feedN call take hf _ q o)

end ReverseProxyLb.Lib.Layers
