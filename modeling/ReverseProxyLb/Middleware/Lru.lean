import ReverseProxyLb.Lib.Recency
import ReverseProxyLb.Middleware.Introspect

/-! `lruCache` keeps a map from keys to the elements of a linked list. Seen as a list of
entries it is the cache that `Introspect` works with. -/
namespace ReverseProxyLb.Middleware.Introspect
open Lib

structure LruEntry where
  key : String
  val : IntrospectResult

/-- `lruCache`. The map and the list hold pointers to entries, of which those below `allocated`
have been handed out. -/
structure PointerLru where
  cap : ℕ
  items : String → Option ℕ := fun _ => none
  eviction : List ℕ := []
  heap : ℕ → LruEntry := fun _ => ⟨"", ⟨false, 0, ⟨false, "", 0⟩⟩⟩
  allocated : ℕ := 0

/-- `MoveToFront`, which does nothing for an element of another list. -/
def moveToFront (l : List ℕ) (el : ℕ) : List ℕ := if el ∈ l then el :: l.erase el else l

namespace PointerLru

/-- `Remove` and `delete`. -/
def remove (c : PointerLru) (key : String) (el : ℕ) : PointerLru :=
  { c with eviction := c.eviction.erase el, items := Function.update c.items key none }

def get (c : PointerLru) (key : String) (now : ℤ) : Option IntrospectResult × PointerLru :=
  match c.items key with
  | none => (none, c)
  | some el =>
    let entry := c.heap el
    if entry.val.expiresAt < now then (none, c.remove key el)
    else (some entry.val, { c with eviction := moveToFront c.eviction el })

def evict (c : PointerLru) : PointerLru :=
  match c.eviction.getLast? with
  | none => c
  | some tail => c.remove (c.heap tail).key tail

def pushFront (c : PointerLru) (key : String) (val : IntrospectResult) : PointerLru :=
  { c with
    heap := Function.update c.heap c.allocated ⟨key, val⟩
    eviction := c.allocated :: c.eviction
    items := Function.update c.items key (some c.allocated)
    allocated := c.allocated + 1 }

def set (c : PointerLru) (key : String) (val : IntrospectResult) : PointerLru :=
  match c.items key with
  | some el =>
    { c with
      eviction := moveToFront c.eviction el
      heap := Function.update c.heap el { c.heap el with val := val } }
  | none => (if c.cap ≤ c.eviction.length then c.evict else c).pushFront key val

def entry (c : PointerLru) (el : ℕ) : String × IntrospectResult := ((c.heap el).key, (c.heap el).val)

def view (c : PointerLru) : LruCache := ⟨c.cap, c.eviction.map c.entry⟩

def keys (c : PointerLru) : List String := c.view.entries.map Prod.fst

/-- The map and the list are in bijection. -/
structure Linked (c : PointerLru) : Prop where
  nodup : c.eviction.Nodup
  items_iff : ∀ k el, c.items k = some el ↔ el ∈ c.eviction ∧ (c.heap el).key = k
  allocated : ∀ el ∈ c.eviction, el < c.allocated

section
variable {c : PointerLru} {key : String} {el : ℕ}

theorem Linked.key_inj (h : c.Linked) {p q : ℕ} (hp : p ∈ c.eviction) (hq : q ∈ c.eviction)
    (hk : (c.heap p).key = (c.heap q).key) : p = q := by
  have hitem := (h.items_iff _ p).mpr ⟨hp, rfl⟩
  rw [hk, (h.items_iff _ q).mpr ⟨hq, rfl⟩] at hitem
  exact (Option.some.inj hitem).symm

theorem Linked.find_some (h : c.Linked) (hi : c.items key = some el) :
    c.view.entries.find? (·.1 = key) = some (c.entry el) := by
  obtain ⟨hmem, hkey⟩ := (h.items_iff key el).mp hi
  have hsome : (c.eviction.find? fun p => (c.heap p).key = key).isSome :=
    List.find?_isSome.mpr ⟨el, hmem, by simpa using hkey⟩
  obtain ⟨p, hp⟩ := Option.isSome_iff_exists.mp hsome
  have hpk : (c.heap p).key = key := by simpa using List.find?_some hp
  rw [view, List.find?_map]
  change (c.eviction.find? fun p => (c.heap p).key = key).map c.entry = _
  rw [hp, h.key_inj (List.mem_of_find?_eq_some hp) hmem (hpk.trans hkey.symm), Option.map_some]

theorem Linked.find_none (h : c.Linked) (hi : c.items key = none) :
    c.view.entries.find? (·.1 = key) = none := by
  simp only [view, List.find?_eq_none, List.mem_map, forall_exists_index, and_imp,
    forall_apply_eq_imp_iff₂,
    decide_eq_true_eq]
  intro p hp hk
  have hitem := (h.items_iff key p).mpr ⟨hp, hk⟩
  rw [hi] at hitem
  cases hitem

theorem Linked.erase (h : c.Linked) (hi : c.items key = some el) :
    (c.eviction.erase el).map c.entry = (c.view.remove key).entries := by
  obtain ⟨hmem, rfl⟩ := (h.items_iff key el).mp hi
  rw [h.nodup.erase_eq_filter, LruCache.remove, view, List.filter_map]
  congr 1
  apply List.filter_congr
  intro p hp
  have hiff : p = el ↔ (c.heap p).key = (c.heap el).key := ⟨fun heq => by rw [heq], h.key_inj hp hmem⟩
  simp [entry, bne, ← hiff, beq_eq_decide]

theorem Linked.remove (h : c.Linked) (hi : c.items key = some el) : (c.remove key el).Linked where
  nodup := h.nodup.erase el
  items_iff k p := by
    obtain ⟨hmem, rfl⟩ := (h.items_iff key el).mp hi
    change Function.update c.items (c.heap el).key none k = some p ↔ p ∈ c.eviction.erase el ∧ _
    rw [h.nodup.mem_erase_iff]
    by_cases hk : k = (c.heap el).key
    · subst hk
      simp only [Function.update_self, false_iff, reduceCtorEq]
      rintro ⟨⟨hne, hp⟩, hkey⟩
      exact hne (h.key_inj hp hmem hkey)
    · rw [Function.update_of_ne hk, h.items_iff]
      refine ⟨fun ⟨hp, hkey⟩ => ⟨⟨?_, hp⟩, hkey⟩, fun ⟨⟨_, hp⟩, hkey⟩ => ⟨hp, hkey⟩⟩
      rintro rfl
      exact hk hkey.symm
  allocated p hp := h.allocated p (List.mem_of_mem_erase hp)

theorem Linked.perm_moveToFront (h : c.Linked) (hi : c.items key = some el) :
    (moveToFront c.eviction el).Perm c.eviction := by
  have hmem := ((h.items_iff key el).mp hi).1
  rw [moveToFront, if_pos hmem]
  exact (List.perm_cons_erase hmem).symm

theorem Linked.of_perm (h : c.Linked) {l : List ℕ} (hl : l.Perm c.eviction) {heap : ℕ → LruEntry}
    (hkey : ∀ p, (heap p).key = (c.heap p).key) : Linked { c with eviction := l, heap := heap } where
  nodup := hl.nodup_iff.mpr h.nodup
  items_iff k p := by
    simp only [hkey, hl.mem_iff]
    exact h.items_iff k p
  allocated p hp := h.allocated p (hl.mem_iff.mp hp)

theorem Linked.evict (h : c.Linked) :
    c.evict.Linked ∧ c.evict.view = { c.view with entries := c.view.entries.dropLast } ∧
      ∀ key, c.items key = none → c.evict.items key = none := by
  unfold PointerLru.evict
  split
  · next hlast =>
    rw [List.getLast?_eq_none_iff] at hlast
    exact ⟨h, by simp [view, hlast], fun _ hi => hi⟩
  · next tail hlast =>
    obtain ⟨front, hfront⟩ := List.getLast?_eq_some_iff.mp hlast
    have hitem : c.items (c.heap tail).key = some tail :=
      (h.items_iff _ _).mpr ⟨List.mem_of_getLast? hlast, rfl⟩
    refine ⟨h.remove hitem, congrArg (LruCache.mk c.cap) ?_, fun key hi => ?_⟩
    · have hnot : tail ∉ front := by
        have hnodup := h.nodup
        rw [hfront, List.nodup_append] at hnodup
        exact fun hmem => hnodup.2.2 tail hmem tail (by simp) rfl
      change (c.eviction.erase tail).map c.entry = (c.eviction.map c.entry).dropLast
      rw [hfront, List.erase_append_right _ hnot]
      simp
    · change Function.update c.items _ none key = none
      by_cases hk : key = (c.heap tail).key
      · rw [hk, Function.update_self]
      · rw [Function.update_of_ne hk, hi]

theorem Linked.pushFront (h : c.Linked) (hi : c.items key = none) (val : IntrospectResult) :
    (c.pushFront key val).Linked ∧
      (c.pushFront key val).view = { c.view with entries := (key, val) :: c.view.entries } := by
  have hnew : c.allocated ∉ c.eviction := fun hmem => (h.allocated _ hmem).ne rfl
  have hheap : ∀ p ∈ c.eviction, Function.update c.heap c.allocated ⟨key, val⟩ p = c.heap p := by
    intro p hp
    exact Function.update_of_ne (h.allocated p hp).ne _ _
  refine ⟨⟨List.nodup_cons.mpr ⟨hnew, h.nodup⟩, fun k p => ?_, fun p hp => ?_⟩, ?_⟩
  · change Function.update c.items key (some c.allocated) k = some p ↔ p ∈ c.allocated :: c.eviction ∧
      (Function.update c.heap c.allocated ⟨key, val⟩ p).key = k
    have hother : p ∈ c.eviction → (c.heap p).key ≠ key := by
      intro hp hk
      have hitem := (h.items_iff key p).mpr ⟨hp, hk⟩
      rw [hi] at hitem
      cases hitem
    rw [List.mem_cons]
    by_cases hp : p = c.allocated
    · subst hp
      by_cases hk : k = key
      · simp [hk]
      · simp [Function.update_of_ne hk, h.items_iff, hnew, Ne.symm hk]
    · rw [Function.update_of_ne hp]
      by_cases hk : k = key
      · subst hk
        simp only [Function.update_self, Option.some.injEq, Ne.symm hp, hp, false_or, false_iff,
          not_and]
        exact hother
      · rw [Function.update_of_ne hk, h.items_iff]
        simp [hp]
  · rcases List.mem_cons.mp hp with rfl | hp
    · exact Nat.lt_succ_self _
    · exact Nat.lt_succ_of_lt (h.allocated p hp)
  · refine congrArg (LruCache.mk c.cap) (congrArg₂ _ ?_ (List.map_congr_left fun p hp => ?_))
    · simp [entry, PointerLru.pushFront]
    · simp [entry, PointerLru.pushFront, hheap p hp]

theorem get_refines (h : c.Linked) (key : String) (now : ℤ) :
    (c.get key now).2.Linked ∧ (c.get key now).1 = (c.view.get key now).1 ∧
      (c.get key now).2.view = (c.view.get key now).2 := by
  unfold get LruCache.get
  cases hi : c.items key with
  | none =>
    rw [h.find_none hi]
    exact ⟨h, rfl, rfl⟩
  | some el =>
    rw [h.find_some hi]
    dsimp only
    by_cases hexp : (c.heap el).val.expiresAt < now
    · rw [if_pos hexp, if_pos (by exact hexp)]
      refine ⟨h.remove hi, rfl, ?_⟩
      exact congrArg (LruCache.mk c.cap) (h.erase hi)
    · rw [if_neg hexp, if_neg (by exact hexp)]
      refine ⟨h.of_perm (h.perm_moveToFront hi) fun _ => rfl, rfl, ?_⟩
      refine congrArg (LruCache.mk c.cap) ?_
      change (moveToFront c.eviction el).map c.entry = _
      rw [moveToFront, if_pos ((h.items_iff key el).mp hi).1, List.map_cons, h.erase hi]

theorem set_refines (h : c.Linked) (key : String) (val : IntrospectResult) :
    (c.set key val).Linked ∧ (c.set key val).view = c.view.set key val := by
  unfold set LruCache.set
  cases hi : c.items key with
  | none =>
    have hnone : (c.view.entries.any fun e => e.1 = key) = false := by
      simpa [List.find?_eq_none] using h.find_none hi
    have hlen : c.view.entries.length = c.eviction.length := by simp [view]
    rw [hnone, if_neg Bool.false_ne_true, hlen]
    change ((if c.cap ≤ c.eviction.length then c.evict else c).pushFront key val).Linked ∧ _
    by_cases hfull : c.cap ≤ c.eviction.length
    · obtain ⟨hlinked, hevict, hitems⟩ := h.evict
      obtain ⟨hpush, hview⟩ := hlinked.pushFront (hitems key hi) val
      rw [if_pos hfull, if_pos (by exact hfull)]
      exact ⟨hpush, by rw [hview, hevict]⟩
    · rw [if_neg hfull, if_neg (by exact hfull)]
      exact h.pushFront hi val
  | some el =>
    obtain ⟨hmem, hkey⟩ := (h.items_iff key el).mp hi
    have hany : (c.view.entries.any fun e => e.1 = key) = true :=
      List.any_eq_true.mpr ⟨c.entry el, List.mem_map_of_mem hmem, decide_eq_true hkey⟩
    rw [hany, if_pos rfl]
    refine ⟨h.of_perm (h.perm_moveToFront hi) fun p => ?_, congrArg (LruCache.mk c.cap) ?_⟩
    · by_cases hp : p = el <;> simp [hp]
    · dsimp only
      rw [moveToFront, if_pos hmem, ← h.erase hi, List.map_cons]
      refine congrArg₂ _ (by simp [entry, hkey]) (List.map_congr_left fun p hp => ?_)
      have hne : p ≠ el := ((h.nodup.mem_erase_iff).mp hp).1
      simp [entry, Function.update_of_ne hne]

end

inductive Call where
  | get (key : String) (now : ℤ)
  | set (key : String) (val : IntrospectResult)

/-- The cache, with the keys in the order of their last successful `get` or `set` and the value
last set for each. -/
structure Traced where
  cache : PointerLru
  uses : List String := []
  last : String → Option IntrospectResult := fun _ => none

def Traced.call (t : Traced) : Call → Traced
  | .get key now =>
    { t with
      cache := (t.cache.get key now).2
      uses := if (t.cache.get key now).1.isSome then key :: t.uses else t.uses }
  | .set key val =>
    { cache := t.cache.set key val, uses := key :: t.uses,
      last := Function.update t.last key (some val) }

def run (cap : ℕ) (calls : List Call) : Traced := calls.foldl Traced.call { cache := { cap := cap } }

structure Kept (cap : ℕ) (t : Traced) : Prop where
  linked : t.cache.Linked
  cap_eq : t.cache.cap = cap
  bound : t.cache.keys.length ≤ cap
  last : ∀ e ∈ t.cache.view.entries, t.last e.1 = some e.2
  recency : ByRecency t.uses t.cache.keys

section
variable (c : LruCache) (key : String) (now : ℤ) (val : IntrospectResult)

theorem cap_get : (c.get key now).2.cap = c.cap := by
  unfold LruCache.get
  cases c.entries.find? (·.1 = key) with
  | none => rfl
  | some e => by_cases h : e.2.expiresAt < now <;> simp [h, LruCache.remove]

theorem cap_set : (c.set key val).cap = c.cap := by
  unfold LruCache.set
  split_ifs <;> rfl

theorem find?_eq_none : c.entries.find? (·.1 = key) = none ↔ key ∉ c.entries.map Prod.fst := by
  rw [List.find?_eq_none]
  simp only [decide_eq_true_eq, List.mem_map, not_exists, not_and]

theorem get_fst : (c.get key now).1 =
    ((c.entries.find? (·.1 = key)).map Prod.snd).filter fun v => ¬ v.expiresAt < now := by
  unfold LruCache.get
  cases c.entries.find? (·.1 = key) with
  | none => rfl
  | some e => by_cases h : e.2.expiresAt < now <;> simp [h, Option.filter]

theorem keys_get : (c.get key now).2.entries.map Prod.fst =
    (if (c.get key now).1.isSome then [key] else []) ++ (c.entries.map Prod.fst).filter (· ≠ key) := by
  have hremove : (c.remove key).entries.map Prod.fst = (c.entries.map Prod.fst).filter (· ≠ key) := by
    rw [LruCache.remove, List.filter_map]
    rfl
  unfold LruCache.get
  cases hf : c.entries.find? (·.1 = key) with
  | none =>
    rw [List.find?_eq_none] at hf
    exact (List.filter_eq_self.mpr (by simpa using hf)).symm
  | some e =>
    have he : e.1 = key := by simpa using List.find?_some hf
    by_cases h : e.2.expiresAt < now <;> simp [h, hremove, he]

variable {c key val} in
theorem mem_set_cases {e : String × IntrospectResult} (h : e ∈ (c.set key val).entries) :
    e = (key, val) ∨ e ∈ c.entries ∧ e.1 ≠ key := by
  unfold LruCache.set at h
  split_ifs at h with hany hfull
  · exact (List.mem_cons.mp h).imp_right fun he => by simpa [LruCache.remove] using he
  · refine (List.mem_cons.mp h).imp_right fun he => ⟨List.mem_of_mem_dropLast he, fun hk => ?_⟩
    exact hany (List.any_eq_true.mpr ⟨e, List.mem_of_mem_dropLast he, decide_eq_true hk⟩)
  · refine (List.mem_cons.mp h).imp_right fun he => ⟨he, fun hk => ?_⟩
    exact hany (List.any_eq_true.mpr ⟨e, he, decide_eq_true hk⟩)

theorem keys_set : (c.set key val).entries.map Prod.fst = key ::
    (if key ∈ c.entries.map Prod.fst then (c.entries.map Prod.fst).filter (· ≠ key)
      else if c.cap ≤ c.entries.length then (c.entries.map Prod.fst).dropLast
        else c.entries.map Prod.fst) := by
  have hany : (c.entries.any fun e => e.1 = key) = true ↔ key ∈ c.entries.map Prod.fst := by simp
  unfold LruCache.set
  simp only [hany]
  split_ifs
  · rw [LruCache.remove, List.filter_map]
    rfl
  · simp
  · rfl

end

section
variable {c : PointerLru} (h : c.Linked) (key : String)
include h

theorem Linked.keys_get (now : ℤ) : (c.get key now).2.keys =
    (if (c.get key now).1.isSome then [key] else []) ++ c.keys.filter (· ≠ key) := by
  obtain ⟨-, hres, hview⟩ := get_refines h key now
  rw [keys, hview, hres, PointerLru.keys_get]
  rfl

theorem Linked.keys_set (val : IntrospectResult) : (c.set key val).keys =
    key :: (if key ∈ c.keys then c.keys.filter (· ≠ key)
      else if c.cap ≤ c.keys.length then c.keys.dropLast else c.keys) := by
  have hlen : c.keys.length = c.view.entries.length := List.length_map _
  rw [hlen, keys, (set_refines h key val).2, PointerLru.keys_set]
  rfl

end

variable {cap : ℕ} {t : Traced}

theorem length_filter_ne_lt {key : String} {l : List String} (h : key ∈ l) :
    (l.filter (· ≠ key)).length < l.length :=
  List.length_filter_lt_length_iff_exists.mpr ⟨key, h, by simp⟩

theorem Kept.init (cap : ℕ) : Kept cap { cache := { cap := cap } } where
  linked := ⟨List.nodup_nil, by simp, by simp⟩
  cap_eq := rfl
  bound := Nat.zero_le cap
  last := by simp [view]
  recency := ByRecency.nil

theorem Kept.get (h : Kept cap t) (key : String) (now : ℤ) : Kept cap (t.call (.get key now)) := by
  obtain ⟨hlinked, hres, hview⟩ := get_refines h.linked key now
  have hkeys := h.linked.keys_get key now
  refine ⟨hlinked, ?_, ?_, ?_, ?_⟩
  · exact (congrArg LruCache.cap hview).trans ((cap_get _ _ _).trans h.cap_eq)
  · change (t.cache.get key now).2.keys.length ≤ cap
    refine le_trans ?_ h.bound
    rw [hkeys]
    split_ifs with hhit
    · -- A hit takes its key out before it puts it in front.
      have hmem : key ∈ t.cache.keys := by
        by_contra hnot
        rw [hres, get_fst, (find?_eq_none _ _).mpr hnot] at hhit
        cases hhit
      exact length_filter_ne_lt hmem
    · exact List.length_filter_le _ _
  · intro e he
    change e ∈ (t.cache.get key now).2.view.entries at he
    rw [hview] at he
    exact h.last e (mem_get he)
  · change ByRecency
      (if (t.cache.get key now).1.isSome then key :: t.uses else t.uses) (t.cache.get key now).2.keys
    rw [hkeys]
    split_ifs
    · exact h.recency.use key
    · exact h.recency.sublist List.filter_sublist

theorem Kept.set (hcap : 1 ≤ cap) (h : Kept cap t) (key : String) (val : IntrospectResult) :
    Kept cap (t.call (.set key val)) := by
  obtain ⟨hlinked, hview⟩ := set_refines h.linked key val
  have hkeys := h.linked.keys_set key val
  have hsame (hnot : key ∉ t.cache.keys) : t.cache.keys.filter (· ≠ key) = t.cache.keys :=
    List.filter_eq_self.mpr fun k hk => decide_eq_true (ne_of_mem_of_not_mem hk hnot)
  have hbound := h.bound
  refine ⟨hlinked, ?_, ?_, ?_, ?_⟩
  · exact (congrArg LruCache.cap hview).trans ((cap_set _ _ _).trans h.cap_eq)
  · change (t.cache.set key val).keys.length ≤ cap
    rw [hkeys, h.cap_eq, List.length_cons]
    split_ifs with hmem hfull
    · have := length_filter_ne_lt hmem
      omega
    · rw [List.length_dropLast]
      omega
    · omega
  · intro e he
    change e ∈ (t.cache.set key val).view.entries at he
    rw [hview] at he
    change Function.update t.last key (some val) e.1 = some e.2
    obtain rfl | ⟨he, hne⟩ := mem_set_cases he
    · exact Function.update_self ..
    · rw [Function.update_of_ne hne, h.last e he]
  · change ByRecency (key :: t.uses) (t.cache.set key val).keys
    rw [hkeys]
    refine (h.recency.use key).sublist (List.Sublist.cons_cons key ?_)
    split_ifs with hmem hfull
    · exact List.Sublist.refl _
    · rw [hsame hmem]
      exact List.dropLast_sublist _
    · rw [hsame hmem]

theorem kept_run (hcap : 1 ≤ cap) (calls : List Call) : Kept cap (run cap calls) := by
  induction calls using List.reverseRecOn with
  | nil => exact Kept.init cap
  | append_singleton calls call ih =>
    rw [run, List.foldl_concat]
    cases call with
    | get key now => exact ih.get key now
    | set key val => exact ih.set hcap key val

/-- What the cache holds, what the next `get` returns and leaves, and what the next `set` leaves.
-/
structure IsLru (cap : ℕ) (t : Traced) : Prop where
  nodup : t.cache.eviction.Nodup
  bijection : ∀ k el, t.cache.items k = some el ↔ el ∈ t.cache.eviction ∧ (t.cache.heap el).key = k
  bound : t.cache.keys.length ≤ cap
  recency : ByRecency t.uses t.cache.keys
  get : ∀ key now, (t.cache.get key now).1 =
    if key ∈ t.cache.keys then (t.last key).filter fun v => ¬ v.expiresAt < now else none
  keys_get : ∀ key now, (t.cache.get key now).2.keys =
    (if (t.cache.get key now).1.isSome then [key] else []) ++ t.cache.keys.filter (· ≠ key)
  keys_set : ∀ key val, (t.cache.set key val).keys =
    key :: (if key ∈ t.cache.keys then t.cache.keys.filter (· ≠ key)
      else if cap ≤ t.cache.keys.length then t.cache.keys.dropLast else t.cache.keys)

theorem Kept.get_result (h : Kept cap t) (key : String) (now : ℤ) : (t.cache.get key now).1 =
    if key ∈ t.cache.keys then (t.last key).filter fun v => ¬ v.expiresAt < now else none := by
  rw [(get_refines h.linked key now).2.1, get_fst]
  split_ifs with hmem
  · obtain ⟨e, he⟩ := Option.ne_none_iff_exists'.mp fun hnone => (find?_eq_none _ _).mp hnone hmem
    have hkey : e.1 = key := by simpa using List.find?_some he
    rw [he, ← hkey, h.last e (List.mem_of_find?_eq_some he), Option.map_some]
  · rw [(find?_eq_none _ _).mpr hmem]
    rfl

/-- The cache holds the values last set for at most `cap` keys, ordered by their last use; a new
key without room takes the place of the key at the end. -/
theorem lruCache_isLru {cap : ℕ} (hcap : 1 ≤ cap) (calls : List Call) : IsLru cap (run cap calls) := by
  have h := kept_run hcap calls
  refine ⟨h.linked.nodup, h.linked.items_iff, h.bound, h.recency, h.get_result, h.linked.keys_get,
    fun key val => ?_⟩
  have hkeys := h.linked.keys_set key val
  rwa [h.cap_eq] at hkeys

/-- Room for two keys: a `get` saves the older one from the third key, and it expires later. -/
theorem lruCache_isLru_two :
    let val : IntrospectResult := ⟨true, 10, ⟨true, "", 0⟩⟩
    let t := run 2 [.set "a" val, .set "b" val, .get "a" 5, .set "c" val]
    t.cache.keys = ["c", "a"] ∧ (t.cache.get "a" 10).1 = some val ∧ (t.cache.get "b" 10).1 = none ∧
      (t.cache.get "a" 11).1 = none ∧ (t.cache.get "a" 11).2.keys = ["c"] := by
  intro val t
  have h : IsLru 2 t := lruCache_isLru (by decide) _
  have hkeys : t.cache.keys = ["c", "a"] := by rfl
  have hlast : t.last "a" = some val := by rfl
  have hexpired : (t.cache.get "a" 11).1 = none := by
    rw [h.get, hkeys, hlast]
    rfl
  refine ⟨hkeys, ?_, ?_, hexpired, ?_⟩
  · rw [h.get, hkeys, hlast]
    rfl
  · rw [h.get, hkeys]
    rfl
  · rw [h.keys_get, hexpired, hkeys]
    rfl

end PointerLru
end ReverseProxyLb.Middleware.Introspect
