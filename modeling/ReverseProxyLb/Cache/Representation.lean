import ReverseProxyLb.Cache.Store
import ReverseProxyLb.Lib.Recency

/-! The map and the list stay linked, and seen as a list of live entries the cache is an LRU
list. -/
namespace ReverseProxyLb.Cache
open Text Lib

section Elements
variable {lru : List Element} {el : Element}

theorem find_element (hd : (lru.map (·.id)).Nodup) (he : el ∈ lru) :
    lru.find? (·.id = el.id) = some el := by
  induction lru with
  | nil => exact absurd he (List.not_mem_nil)
  | cons a lru ih =>
    rw [List.map_cons, List.nodup_cons] at hd
    rcases List.mem_cons.mp he with rfl | he
    · simp
    · have hne : a.id ≠ el.id := by
        intro h
        apply hd.1
        rw [h]
        exact List.mem_map_of_mem he
      rw [List.find?_cons_of_neg (by simpa using hne)]
      exact ih hd.2 he

theorem moveToFront_of_mem (hd : (lru.map (·.id)).Nodup) (he : el ∈ lru) :
    moveToFront el.id lru = el :: removeElement el.id lru := by
  unfold moveToFront
  rw [find_element hd he]

theorem mem_removeElement {id : ℕ} {a : Element} :
    a ∈ removeElement id lru ↔ a ∈ lru ∧ a.id ≠ id := by
  simp [removeElement]

theorem removeElement_setValue (id : ℕ) (e : CacheEntry) :
    removeElement id (setValue id e lru) = removeElement id lru := by
  induction lru with
  | nil => rfl
  | cons a lru ih =>
    unfold removeElement setValue at ih ⊢
    by_cases h : a.id = id
    · simpa [h] using ih
    · simpa [h] using ih

theorem setValue_ids (id : ℕ) (e : CacheEntry) :
    (setValue id e lru).map (·.id) = lru.map (·.id) := by
  unfold setValue
  rw [List.map_map]
  apply List.map_congr_left
  intro a _
  simp only [Function.comp_apply]
  split <;> rfl

end Elements

namespace ResponseCache

/-- Each key points to the one element whose entry has that key, and each element occurs once. -/
structure Linked (c : ResponseCache) : Prop where
  pointed : ∀ k id, c.entries.lookup k = some id → ∃ el ∈ c.lru, el.id = id ∧ el.value.key = k
  indexed : ∀ el ∈ c.lru, c.entries.lookup el.value.key = some el.id
  distinct : (c.lru.map (·.id)).Nodup
  unborn : ∀ el ∈ c.lru, el.id < c.nextElement

/-- The recorded hint is authoritative for every live variant of its resource. -/
structure Hinted (c : ResponseCache) : Prop where
  varyNames : ∀ e ∈ c.live, e.varyNames = (c.varyHints.lookup e.baseKey).getD []

structure SameSettings (c c' : ResponseCache) : Prop where
  methods : c'.methods = c.methods
  defaultTTL : c'.defaultTTL = c.defaultTTL
  maxEntries : c'.maxEntries = c.maxEntries

theorem SameSettings.refl (c : ResponseCache) : SameSettings c c := ⟨rfl, rfl, rfl⟩

theorem SameSettings.trans {a b c : ResponseCache} (h : SameSettings a b) (h' : SameSettings b c) :
    SameSettings a c :=
  ⟨h'.methods.trans h.methods, h'.defaultTTL.trans h.defaultTTL,
    h'.maxEntries.trans h.maxEntries⟩

theorem SameSettings.remove (c : ResponseCache) (k : String) (id : ℕ) :
    SameSettings c (c.remove k id) :=
  ⟨rfl, rfl, rfl⟩

section Linked
variable {c : ResponseCache}

theorem Linked.id_iff (h : c.Linked) {a b : Element} (ha : a ∈ c.lru) (hb : b ∈ c.lru) :
    a.id = b.id ↔ a.value.key = b.value.key := by
  constructor
  · intro hid
    have hab := find_element h.distinct ha
    rw [hid, find_element h.distinct hb] at hab
    rw [Option.some.inj hab]
  · intro hk
    have hab := h.indexed a ha
    rw [hk, h.indexed b hb] at hab
    exact (Option.some.inj hab).symm

theorem Linked.eq_of_key (h : c.Linked) {a b : Element} (ha : a ∈ c.lru) (hb : b ∈ c.lru)
    (hk : a.value.key = b.value.key) : a = b := by
  have hab := find_element h.distinct ha
  rw [(h.id_iff ha hb).mpr hk, find_element h.distinct hb] at hab
  exact (Option.some.inj hab).symm

theorem Linked.element (h : c.Linked) {k : String} {id : ℕ} (hk : c.entries.lookup k = some id) :
    ∃ el ∈ c.lru, el.id = id ∧ el.value.key = k ∧ c.valueOf id = some el.value := by
  obtain ⟨el, hmem, hid, hkey⟩ := h.pointed k id hk
  refine ⟨el, hmem, hid, hkey, ?_⟩
  rw [valueOf, ← hid, find_element h.distinct hmem]
  rfl

theorem Linked.live_removeElement (h : c.Linked) {el : Element} (he : el ∈ c.lru) :
    (removeElement el.id c.lru).map (·.value) = c.live.filter (·.key ≠ el.value.key) := by
  unfold removeElement live
  rw [List.filter_map]
  congr 1
  apply List.filter_congr
  intro a ha
  simp only [Function.comp_apply, ne_eq, decide_not, h.id_iff ha he]

theorem Linked.remove (h : c.Linked) {el : Element} (he : el ∈ c.lru) :
    (c.remove el.value.key el.id).Linked where
  pointed := by
    intro k id hk
    change (c.entries.erase el.value.key).lookup k = some id at hk
    by_cases hkey : k = el.value.key
    · rw [hkey, AList.lookup_erase] at hk
      exact absurd hk (by simp)
    · rw [AList.lookup_erase_ne hkey] at hk
      obtain ⟨a, ha, hid, hak⟩ := h.pointed k id hk
      refine ⟨a, mem_removeElement.mpr ⟨ha, ?_⟩, hid, hak⟩
      rw [ne_eq, h.id_iff ha he, hak]
      exact hkey
  indexed := by
    intro a ha
    obtain ⟨ha, hne⟩ := mem_removeElement.mp ha
    change (c.entries.erase el.value.key).lookup a.value.key = some a.id
    rw [ne_eq, h.id_iff ha he] at hne
    rw [AList.lookup_erase_ne hne]
    exact h.indexed a ha
  distinct := h.distinct.sublist ((List.filter_sublist).map _)
  unborn := by
    intro a ha
    exact h.unborn a (mem_removeElement.mp ha).1

theorem Linked.live_remove (h : c.Linked) {el : Element} (he : el ∈ c.lru) :
    (c.remove el.value.key el.id).live = c.live.filter (·.key ≠ el.value.key) :=
  h.live_removeElement he

theorem Linked.moveToFront (h : c.Linked) {el : Element} (he : el ∈ c.lru) :
    Linked { c with lru := Cache.moveToFront el.id c.lru } := by
  have hm : ∀ a, a ∈ Cache.moveToFront el.id c.lru ↔ a ∈ c.lru := by
    intro a
    rw [moveToFront_of_mem h.distinct he, List.mem_cons, mem_removeElement]
    constructor
    · rintro (rfl | ⟨ha, _⟩)
      · exact he
      · exact ha
    · intro ha
      by_cases hid : a.id = el.id
      · exact Or.inl (h.eq_of_key ha he ((h.id_iff ha he).mp hid))
      · exact Or.inr ⟨ha, hid⟩
  constructor
  · intro k id hk
    obtain ⟨a, ha, hr⟩ := h.pointed k id hk
    exact ⟨a, (hm a).mpr ha, hr⟩
  · intro a ha
    exact h.indexed a ((hm a).mp ha)
  · simp only [moveToFront_of_mem h.distinct he, List.map_cons, List.nodup_cons]
    constructor
    · intro hmem
      obtain ⟨a, ha, hid⟩ := List.mem_map.mp hmem
      exact (mem_removeElement.mp ha).2 hid
    · exact h.distinct.sublist ((List.filter_sublist).map _)
  · intro a ha
    exact h.unborn a ((hm a).mp ha)

theorem Linked.live_moveToFront (h : c.Linked) {el : Element} (he : el ∈ c.lru) :
    live { c with lru := Cache.moveToFront el.id c.lru } =
      el.value :: c.live.filter (·.key ≠ el.value.key) := by
  unfold live
  rw [moveToFront_of_mem h.distinct he, List.map_cons, h.live_removeElement he]
  rfl

theorem Linked.setValue (h : c.Linked) {el : Element} (he : el ∈ c.lru) {e : CacheEntry}
    (hk : e.key = el.value.key) :
    Linked { c with lru := Cache.setValue el.id e c.lru } := by
  have hkeys : ∀ a ∈ Cache.setValue el.id e c.lru,
      ∃ b ∈ c.lru, b.id = a.id ∧ b.value.key = a.value.key := by
    intro a ha
    obtain ⟨b, hb, rfl⟩ := List.mem_map.mp ha
    refine ⟨b, hb, ?_⟩
    split_ifs with hid
    · exact ⟨rfl, by rw [hk, ← h.id_iff hb he, hid]⟩
    · exact ⟨rfl, rfl⟩
  constructor
  · intro k id hkid
    obtain ⟨a, ha, hid, hak⟩ := h.pointed k id hkid
    refine ⟨_, List.mem_map_of_mem ha, ?_⟩
    split_ifs with hid'
    · refine ⟨hid, ?_⟩
      rw [h.id_iff ha he] at hid'
      rw [hk, ← hid', hak]
    · exact ⟨hid, hak⟩
  · intro a ha
    obtain ⟨b, hb, hid, hkey⟩ := hkeys a ha
    rw [← hkey, ← hid]
    exact h.indexed b hb
  · change ((Cache.setValue el.id e c.lru).map (·.id)).Nodup
    rw [setValue_ids]
    exact h.distinct
  · intro a ha
    obtain ⟨b, hb, hid, _⟩ := hkeys a ha
    rw [← hid]
    exact h.unborn b hb

theorem Linked.overwrite (h : c.Linked) {el : Element} (he : el ∈ c.lru) {e : CacheEntry}
    (hk : e.key = el.value.key) :
    let c' := { c with lru := Cache.moveToFront el.id (Cache.setValue el.id e c.lru) }
    Linked c' ∧ live c' = e :: c.live.filter (·.key ≠ e.key) := by
  have hset := h.setValue he hk
  have hmem : (⟨el.id, e⟩ : Element) ∈ Cache.setValue el.id e c.lru :=
    List.mem_map.mpr ⟨el, he, if_pos rfl⟩
  have hfront := hset.moveToFront hmem
  refine ⟨hfront, ?_⟩
  change (Cache.moveToFront (⟨el.id, e⟩ : Element).id (Cache.setValue el.id e c.lru)).map _ = _
  rw [moveToFront_of_mem hset.distinct hmem, List.map_cons, removeElement_setValue,
    h.live_removeElement he, hk]

theorem Linked.push (h : c.Linked) {e : CacheEntry} (hk : c.entries.lookup e.key = none) :
    Linked { c with
      lru := ⟨c.nextElement, e⟩ :: c.lru
      entries := c.entries.insert e.key c.nextElement
      nextElement := c.nextElement + 1 } := by
  have hne : ∀ a ∈ c.lru, a.value.key ≠ e.key := by
    intro a ha hkey
    have := h.indexed a ha
    rw [hkey, hk] at this
    exact absurd this (by simp)
  constructor
  · intro k id hkid
    change (c.entries.insert e.key c.nextElement).lookup k = some id at hkid
    by_cases hkey : k = e.key
    · rw [hkey, AList.lookup_insert] at hkid
      exact ⟨_, List.mem_cons_self .., Option.some.inj hkid, hkey.symm⟩
    · rw [AList.lookup_insert_ne hkey] at hkid
      obtain ⟨a, ha, hr⟩ := h.pointed k id hkid
      exact ⟨a, List.mem_cons_of_mem _ ha, hr⟩
  · intro a ha
    change (c.entries.insert e.key c.nextElement).lookup a.value.key = some a.id
    rcases List.mem_cons.mp ha with rfl | ha
    · rw [AList.lookup_insert]
    · rw [AList.lookup_insert_ne (hne a ha)]
      exact h.indexed a ha
  · rw [List.map_cons, List.nodup_cons]
    refine ⟨?_, h.distinct⟩
    intro hmem
    obtain ⟨a, ha, hid⟩ := List.mem_map.mp hmem
    exact absurd hid (Nat.ne_of_lt (h.unborn a ha))
  · intro a ha
    change a.id < c.nextElement + 1
    rcases List.mem_cons.mp ha with rfl | ha
    · exact Nat.lt_succ_self _
    · exact Nat.lt_succ_of_lt (h.unborn a ha)

theorem remove_last {el : Element} (h : c.Linked) (hl : c.lru.getLast? = some el) :
    (c.remove el.value.key el.id).lru = c.lru.dropLast := by
  obtain ⟨front, hfront⟩ := List.getLast?_eq_some_iff.mp hl
  have hd := h.distinct
  change removeElement el.id c.lru = c.lru.dropLast
  rw [hfront] at hd ⊢
  rw [List.dropLast_concat]
  unfold removeElement
  rw [List.filter_append, List.filter_eq_self.mpr]
  · simp
  · intro a ha
    rw [List.map_append, List.nodup_append] at hd
    exact decide_eq_true (hd.2.2 a.id (List.mem_map_of_mem ha) el.id (by simp))

theorem Linked.evict (h : c.Linked) (fuel : ℕ) (hf : c.lru.length ≤ fuel + c.maxEntries) :
    (evict fuel c).Linked ∧ (evict fuel c).lru = c.lru.take c.maxEntries ∧
      SameSettings c (evict fuel c) ∧ (evict fuel c).varyHints = c.varyHints := by
  induction fuel generalizing c with
  | zero =>
    refine ⟨h, ?_, SameSettings.refl c, rfl⟩
    rw [List.take_of_length_le (by omega)]
    rfl
  | succ fuel ih =>
    unfold ResponseCache.evict
    by_cases hlen : c.maxEntries < c.lru.length
    · rw [if_pos hlen]
      have hne : c.lru ≠ [] := by
        intro hnil
        simp [hnil] at hlen
      obtain ⟨el, hel⟩ := Option.ne_none_iff_exists'.mp (mt List.getLast?_eq_none_iff.mp hne)
      have hlru := remove_last h hel
      have hlen' : (c.remove el.value.key el.id).lru.length ≤
          fuel + (c.remove el.value.key el.id).maxEntries := by
        rw [hlru, List.length_dropLast]
        change _ ≤ fuel + c.maxEntries
        omega
      obtain ⟨hl, htake, hsame, hhint⟩ := ih (h.remove (List.mem_of_getLast? hel)) hlen'
      rw [hel]
      refine ⟨hl, ?_, (SameSettings.remove c _ _).trans hsame, hhint⟩
      rw [htake, hlru]
      change c.lru.dropLast.take c.maxEntries = _
      rw [List.dropLast_eq_take, List.take_take, min_eq_left (by omega)]
    · rw [if_neg hlen]
      exact ⟨h, (List.take_of_length_le (by omega)).symm, SameSettings.refl c, rfl⟩

theorem Linked.filter_live {el : Element} (h : c.Linked) (he : el ∈ c.lru) {p q : CacheEntry → Bool}
    (hel : p el.value = q el.value) (hne : ∀ e : CacheEntry, e.key ≠ el.value.key → p e = q e) :
    c.live.filter p = c.live.filter q := by
  apply List.filter_congr
  intro e hmem
  obtain ⟨a, ha, rfl⟩ := List.mem_map.mp hmem
  by_cases hkey : a.value.key = el.value.key
  · obtain rfl := h.eq_of_key ha he hkey
    exact hel
  · exact hne _ hkey

theorem Linked.purge (h : c.Linked) (baseKey : String) (pairs : List ((_ : String) × ℕ))
    (hp : ∀ p ∈ pairs, c.entries.lookup p.1 = some p.2) (hn : (pairs.map (·.1)).Nodup) :
    let c' := pairs.foldl (purgeStep baseKey) c
    Linked c' ∧
      live c' = c.live.filter (fun e => ¬ (e.baseKey = baseKey ∧ e.key ∈ pairs.map (·.1))) ∧
      SameSettings c c' ∧ c'.varyHints = c.varyHints := by
  induction pairs generalizing c with
  | nil =>
    refine ⟨h, ?_, SameSettings.refl c, rfl⟩
    simp
  | cons p pairs ih =>
    obtain ⟨el, he, hid, hkey, hval⟩ := h.element (hp p (List.mem_cons_self ..))
    rw [List.map_cons, List.nodup_cons] at hn
    have hrest : ∀ q ∈ pairs, q.1 ≠ p.1 := by
      intro q hq heq
      exact hn.1 (heq ▸ List.mem_map_of_mem hq)
    rw [List.foldl_cons]
    by_cases hb : el.value.baseKey = baseKey
    · -- the element goes, and the remaining pairs are still in the map
      have hstep : purgeStep baseKey c p = c.remove el.value.key el.id := by
        unfold purgeStep
        rw [if_pos (by simp [hval, hb]), hid, hkey]
      have hp' : ∀ q ∈ pairs, (c.remove el.value.key el.id).entries.lookup q.1 = some q.2 := by
        intro q hq
        change (c.entries.erase el.value.key).lookup q.1 = some q.2
        rw [AList.lookup_erase_ne (by rw [hkey]; exact hrest q hq)]
        exact hp q (List.mem_cons_of_mem _ hq)
      obtain ⟨hl, hlive, hsame, hhint⟩ := ih (h.remove he) hp' hn.2
      rw [hstep]
      refine ⟨hl, ?_, (SameSettings.remove c _ _).trans hsame, hhint⟩
      rw [hlive, h.live_remove he, List.filter_filter]
      refine h.filter_live he ?_ fun e hne => ?_
      · simp [hb, hkey]
      · rw [hkey] at hne
        simp only [List.map_cons, List.mem_cons, hne, hkey, false_or, ne_eq, not_false_eq_true,
          decide_true, Bool.and_true]
    · have hstep : purgeStep baseKey c p = c := by
        unfold purgeStep
        rw [if_neg (by simp [hval, hb])]
      obtain ⟨hl, hlive, hsame, hhint⟩ :=
        ih h (fun q hq => hp q (List.mem_cons_of_mem _ hq)) hn.2
      rw [hstep]
      refine ⟨hl, ?_, hsame, hhint⟩
      rw [hlive]
      refine h.filter_live he ?_ fun e hne => ?_
      · simp [hb]
      · rw [hkey] at hne
        simp only [List.map_cons, List.mem_cons, hne, false_or]

theorem Linked.purgeBaseLocked (h : c.Linked) (baseKey : String) :
    (c.purgeBaseLocked baseKey).Linked ∧
      (c.purgeBaseLocked baseKey).live = c.live.filter (·.baseKey ≠ baseKey) ∧
      SameSettings c (c.purgeBaseLocked baseKey) ∧
      (c.purgeBaseLocked baseKey).varyHints = c.varyHints := by
  have hp : ∀ p ∈ c.entries.entries, c.entries.lookup p.1 = some p.2 := by
    intro p hp
    exact AList.mem_lookup_iff.mpr hp
  obtain ⟨hl, hlive, hsame, hhint⟩ := h.purge baseKey c.entries.entries hp c.entries.nodupKeys
  refine ⟨hl, ?_, hsame, hhint⟩
  unfold ResponseCache.purgeBaseLocked
  rw [hlive]
  apply List.filter_congr
  intro e hmem
  obtain ⟨a, ha, rfl⟩ := List.mem_map.mp hmem
  have hin : a.value.key ∈ c.entries.entries.map (·.1) :=
    List.mem_map.mpr ⟨_, AList.mem_lookup_iff.mp (h.indexed a ha), rfl⟩
  simp [hin]

theorem Linked.mem_live (h : c.Linked) {k : String} :
    c.entries.lookup k = none ↔ ∀ e ∈ c.live, e.key ≠ k := by
  constructor
  · intro hk e he hkey
    obtain ⟨a, ha, rfl⟩ := List.mem_map.mp he
    have := h.indexed a ha
    rw [hkey, hk] at this
    exact absurd this (by simp)
  · intro hall
    by_contra hne
    obtain ⟨id, hid⟩ := Option.ne_none_iff_exists'.mp hne
    obtain ⟨el, hel, _, hkey⟩ := h.pointed k id hid
    exact hall el.value (List.mem_map_of_mem hel) hkey

theorem Linked.lookup (h : c.Linked) (baseKey : String) (r : Request) :
    c.lookup baseKey r = (none, c) ∨
      ∃ e ∈ c.live, e.key = c.lookupKey baseKey r ∧ (c.lookup baseKey r).1 = some e ∧
        (c.lookup baseKey r).2.Linked ∧
        (c.lookup baseKey r).2.live = e :: c.live.filter (·.key ≠ e.key) ∧
        SameSettings c (c.lookup baseKey r).2 ∧
        (c.lookup baseKey r).2.varyHints = c.varyHints := by
  unfold ResponseCache.lookup
  cases hk : c.entries.lookup (c.lookupKey baseKey r) with
  | none => exact Or.inl rfl
  | some id =>
    obtain ⟨el, hel, rfl, hkey, hval⟩ := h.element hk
    refine Or.inr ⟨el.value, List.mem_map_of_mem hel, hkey, hval, ?_⟩
    exact ⟨h.moveToFront hel, h.live_moveToFront hel, ⟨rfl, rfl, rfl⟩, rfl⟩

theorem Linked.settleVary (h : c.Linked) (hh : c.Hinted) (e : CacheEntry) :
    (c.settleVary e).Linked ∧ (c.settleVary e).Hinted ∧
      ((c.settleVary e).varyHints.lookup e.baseKey).getD [] = e.varyNames ∧
      (c.settleVary e).live.Sublist c.live ∧ SameSettings c (c.settleVary e) := by
  obtain ⟨hl, hlive, hsame, hhint⟩ := h.purgeBaseLocked e.baseKey
  -- an entry that survives the purge belongs to another resource
  have hother : ∀ (hints : AList fun _ : String => List String),
      (∀ b, b ≠ e.baseKey → hints.lookup b = c.varyHints.lookup b) →
      Hinted { c.purgeBaseLocked e.baseKey with varyHints := hints } := by
    intro hints hrest
    constructor
    intro a ha
    have ha' : a ∈ c.live.filter (·.baseKey ≠ e.baseKey) := hlive ▸ ha
    obtain ⟨hmem, hne⟩ := List.mem_filter.mp ha'
    rw [hrest _ (of_decide_eq_true hne)]
    exact hh.varyNames a hmem
  have hsub : (c.purgeBaseLocked e.baseKey).live.Sublist c.live := by
    rw [hlive]
    exact List.filter_sublist
  unfold ResponseCache.settleVary
  dsimp only
  split_ifs with hchanged hvary
  · refine ⟨⟨hl.pointed, hl.indexed, hl.distinct, hl.unborn⟩, hother _ ?_, ?_, hsub, ?_⟩
    · intro b hb
      rw [AList.lookup_insert_ne hb, hhint]
    · rw [AList.lookup_insert]
      rfl
    · exact ⟨hsame.methods, hsame.defaultTTL, hsame.maxEntries⟩
  · refine ⟨⟨hl.pointed, hl.indexed, hl.distinct, hl.unborn⟩, hother _ ?_, ?_, hsub, ?_⟩
    · intro b hb
      rw [AList.lookup_erase_ne hb, hhint]
    · rw [AList.lookup_erase]
      exact (not_not.mp hvary).symm
    · exact ⟨hsame.methods, hsame.defaultTTL, hsame.maxEntries⟩
  · refine ⟨h, hh, ?_, List.Sublist.refl _, SameSettings.refl c⟩
    by_contra hne
    apply hchanged
    refine ⟨?_, hne⟩
    by_contra hnone
    push Not at hnone
    rw [Option.not_isSome_iff_eq_none.mp hnone.1, hnone.2] at hne
    exact hne rfl

theorem Linked.insertEntry (h : c.Linked) (hb : c.live.length ≤ c.maxEntries) (e : CacheEntry) :
    (c.insertEntry e).Linked ∧
      (c.insertEntry e).live = (e :: c.live.filter (·.key ≠ e.key)).take c.maxEntries ∧
      SameSettings c (c.insertEntry e) ∧ (c.insertEntry e).varyHints = c.varyHints := by
  unfold ResponseCache.insertEntry
  cases hk : c.entries.lookup e.key with
  | some id =>
    obtain ⟨el, hel, rfl, hkey, _⟩ := h.element hk
    obtain ⟨hl, hlive⟩ := h.overwrite hel hkey.symm
    refine ⟨hl, ?_, ⟨rfl, rfl, rfl⟩, rfl⟩
    rw [hlive, List.take_of_length_le]
    -- one entry goes and one comes
    have hlt : (c.live.filter (·.key ≠ e.key)).length < c.live.length := by
      rw [List.length_filter_lt_length_iff_exists]
      exact ⟨el.value, List.mem_map_of_mem hel, by simp [hkey]⟩
    rw [List.length_cons]
    omega
  | none =>
    have hfilter : c.live.filter (·.key ≠ e.key) = c.live := by
      rw [List.filter_eq_self]
      intro a ha
      exact decide_eq_true (h.mem_live.mp hk a ha)
    obtain ⟨hl, htake, hsame, hhint⟩ :=
      (h.push hk).evict (c.lru.length + 1) (by simp only [List.length_cons]; omega)
    refine ⟨hl, ?_, ⟨hsame.methods, hsame.defaultTTL, hsame.maxEntries⟩, hhint⟩
    unfold live at hfilter ⊢
    rw [htake, hfilter, List.map_take]
    rfl

theorem Linked.store (h : c.Linked) (hh : c.Hinted) (hb : c.live.length ≤ c.maxEntries)
    (e : CacheEntry) :
    (c.store e).Linked ∧ (c.store e).Hinted ∧
      (c.store e).live =
        (e :: (c.settleVary e).live.filter (·.key ≠ e.key)).take c.maxEntries ∧
      SameSettings c (c.store e) := by
  obtain ⟨hl, hhint, hhinted, hsub, hsame⟩ := h.settleVary hh e
  obtain ⟨hl', hlive, hsame', hhint'⟩ :=
    hl.insertEntry (by rw [hsame.maxEntries]; exact hsub.length_le.trans hb) e
  rw [hsame.maxEntries] at hlive
  refine ⟨hl', ⟨?_⟩, hlive, hsame.trans hsame'⟩
  intro a ha
  change a ∈ ((c.settleVary e).insertEntry e).live at ha
  change a.varyNames = (((c.settleVary e).insertEntry e).varyHints.lookup a.baseKey).getD []
  rw [hlive] at ha
  rw [hhint']
  rcases List.mem_cons.mp (List.mem_of_mem_take ha) with rfl | ha
  · exact hhinted.symm
  · exact hhint.varyNames a (List.mem_of_mem_filter ha)

end Linked
end ResponseCache

/-- A call on the cache: a lookup for a request, or the store of what a request's
response gives. -/
inductive Access where
  | lookup (r : Request)
  | store (r : Request) (cw : Capture) (now : ℤ)

/-- The cache with the keys stored or hit so far, the latest first. -/
structure Traced where
  cache : ResponseCache
  uses : List String

namespace Traced

def init (cfg : CacheConfig) : Traced := ⟨newCache cfg, []⟩

def access (t : Traced) : Access → Traced
  | .lookup r =>
    let (found, cache) := t.cache.lookup (requestKey r) r
    ⟨cache, (found.map (·.key)).toList ++ t.uses⟩
  | .store r cw now =>
    match entryFromCapture t.cache.defaultTTL r (requestKey r) cw now with
    | some e => ⟨t.cache.store e, e.key :: t.uses⟩
    | none => t

theorem access_lookup (t : Traced) (r : Request) :
    t.access (.lookup r) =
      ⟨(t.cache.lookup (requestKey r) r).2,
        ((t.cache.lookup (requestKey r) r).1.map (·.key)).toList ++ t.uses⟩ := rfl

def run (cfg : CacheConfig) (calls : List Access) : Traced := calls.foldl access (init cfg)

theorem run_concat (cfg : CacheConfig) (calls : List Access) (call : Access) :
    run cfg (calls ++ [call]) = (run cfg calls).access call := by
  simp [run]

/-- The invariant of the representation; `calls` are those made so far. -/
structure Represents (cfg : CacheConfig) (calls : List Access) (t : Traced) : Prop where
  linked : t.cache.Linked
  hinted : t.cache.Hinted
  settings : (newCache cfg).SameSettings t.cache
  bounded : t.cache.live.length ≤ t.cache.maxEntries
  recency : ByRecency t.uses (t.cache.live.map (·.key))
  origin : ∀ e ∈ t.cache.live, ∃ r cw now, Access.store r cw now ∈ calls ∧
    entryFromCapture t.cache.defaultTTL r (requestKey r) cw now = some e

section Represents
variable {cfg : CacheConfig} {calls : List Access} {t : Traced}

theorem recency_use (h : ByRecency t.uses (t.cache.live.map (·.key))) {entries : List CacheEntry}
    (hs : entries.Sublist t.cache.live) (e : CacheEntry) :
    ByRecency (e.key :: t.uses) ((e :: entries.filter (·.key ≠ e.key)).map (·.key)) := by
  have hu := (h.sublist (hs.map (·.key))).use e.key
  rw [List.filter_map] at hu
  exact hu

theorem Represents.lookup (h : Represents cfg calls t) (r : Request) :
    Represents cfg (calls ++ [.lookup r]) (t.access (.lookup r)) := by
  have horigin : ∀ e ∈ t.cache.live, ∃ r' cw now, Access.store r' cw now ∈ calls ++ [.lookup r] ∧
      entryFromCapture t.cache.defaultTTL r' (requestKey r') cw now = some e := by
    intro e he
    obtain ⟨r', cw, now, hc, hr⟩ := h.origin e he
    exact ⟨r', cw, now, List.mem_append_left _ hc, hr⟩
  rw [access_lookup]
  rcases h.linked.lookup (requestKey r) r with hmiss | ⟨e, he, _, hfound, hl, hlive, hsame, hhint⟩
  · rw [hmiss]
    exact ⟨h.linked, h.hinted, h.settings, h.bounded, h.recency, horigin⟩
  · have hperm : ∀ a, a ∈ (t.cache.lookup (requestKey r) r).2.live → a ∈ t.cache.live := by
      intro a ha
      rw [hlive] at ha
      rcases List.mem_cons.mp ha with rfl | ha
      · exact he
      · exact List.mem_of_mem_filter ha
    rw [hfound]
    constructor
    · exact hl
    · constructor
      intro a ha
      rw [hhint]
      exact h.hinted.varyNames a (hperm a ha)
    · exact h.settings.trans hsame
    · have hlt : (t.cache.live.filter (·.key ≠ e.key)).length < t.cache.live.length := by
        rw [List.length_filter_lt_length_iff_exists]
        exact ⟨e, he, by simp⟩
      have := h.bounded
      rw [hlive, hsame.maxEntries, List.length_cons]
      omega
    · rw [hlive]
      exact recency_use h.recency (List.Sublist.refl _) e
    · intro a ha
      rw [hsame.defaultTTL]
      exact horigin a (hperm a ha)

theorem Represents.store (h : Represents cfg calls t) (r : Request) (cw : Capture) (now : ℤ) :
    Represents cfg (calls ++ [.store r cw now]) (t.access (.store r cw now)) := by
  have horigin : ∀ e ∈ t.cache.live, ∃ r' cw' now',
      Access.store r' cw' now' ∈ calls ++ [.store r cw now] ∧
      entryFromCapture t.cache.defaultTTL r' (requestKey r') cw' now' = some e := by
    intro e he
    obtain ⟨r', cw', now', hc, hr⟩ := h.origin e he
    exact ⟨r', cw', now', List.mem_append_left _ hc, hr⟩
  unfold access
  dsimp only
  cases he : entryFromCapture t.cache.defaultTTL r (requestKey r) cw now with
  | none => exact ⟨h.linked, h.hinted, h.settings, h.bounded, h.recency, horigin⟩
  | some e =>
    obtain ⟨hl, hhint, hlive, hsame⟩ := h.linked.store h.hinted h.bounded e
    obtain ⟨_, _, _, hsub, _⟩ := h.linked.settleVary h.hinted e
    constructor
    · exact hl
    · exact hhint
    · exact h.settings.trans hsame
    · rw [hlive, hsame.maxEntries]
      exact List.length_take_le _ _
    · rw [hlive, List.map_take]
      exact (recency_use h.recency hsub e).sublist (List.take_sublist _ _)
    · intro a ha
      rw [hsame.defaultTTL]
      rw [hlive] at ha
      rcases List.mem_cons.mp (List.mem_of_mem_take ha) with rfl | ha
      · exact ⟨r, cw, now, List.mem_append_right _ (List.mem_singleton.mpr rfl), he⟩
      · exact horigin a (hsub.subset (List.mem_of_mem_filter ha))

theorem represents_run (cfg : CacheConfig) (calls : List Access) :
    Represents cfg calls (run cfg calls) := by
  induction calls using List.reverseRecOn with
  | nil =>
    constructor
    · exact ⟨by simp [run, init, newCache], by simp [run, init, newCache], List.nodup_nil, by
        simp [run, init, newCache]⟩
    · exact ⟨by simp [run, init, newCache, ResponseCache.live]⟩
    · exact ResponseCache.SameSettings.refl _
    · exact Nat.zero_le _
    · exact ByRecency.nil
    · simp [run, init, newCache, ResponseCache.live]
  | append_singleton calls call ih =>
    rw [run_concat]
    cases call with
    | lookup r => exact ih.lookup r
    | store r cw now => exact ih.store r cw now

end Represents
end Traced

/-- The entries that are present once the new entry is in, and that the cache no longer has. -/
def evictedBy (c : ResponseCache) (e : CacheEntry) : List CacheEntry :=
  (e :: (c.settleVary e).live.filter (·.key ≠ e.key)).drop (c.store e).live.length

/-- The representation invariant after every sequence of calls, and what the next store evicts: no
more than the bound asks for, and nothing that was used after what is kept. -/
theorem cache_representation (cfg : CacheConfig) (calls : List Access) :
    let c := (Traced.run cfg calls).cache
    (∀ k id, c.entries.lookup k = some id → ∃ el ∈ c.lru, el.id = id ∧ el.value.key = k) ∧
    (∀ el ∈ c.lru, c.entries.lookup el.value.key = some el.id) ∧
    (c.lru.map (·.id)).Nodup ∧
    c.lru.length ≤ (newCache cfg).maxEntries ∧
    (∀ el ∈ c.lru, el.value.varyNames = (c.varyHints.lookup el.value.baseKey).getD []) ∧
    (∀ el ∈ c.lru, ∃ r cw now, Access.store r cw now ∈ calls ∧
      entryFromCapture (newCache cfg).defaultTTL r (requestKey r) cw now = some el.value ∧
      el.value.key = el.value.baseKey ++ buildVaryKey el.value.varyNames r) ∧
    (∀ e : CacheEntry,
      let present := e :: (c.settleVary e).live.filter (·.key ≠ e.key)
      let uses := e.key :: (Traced.run cfg calls).uses
      present = (c.store e).live ++ evictedBy c e ∧
      (evictedBy c e).length = present.length - (newCache cfg).maxEntries ∧
      ∀ a ∈ (c.store e).live, ∀ b ∈ evictedBy c e, uses.idxOf a.key < uses.idxOf b.key) := by
  intro c
  have h := Traced.represents_run cfg calls
  have hmax : c.maxEntries = (newCache cfg).maxEntries := h.settings.maxEntries
  refine ⟨h.linked.pointed, h.linked.indexed, h.linked.distinct, ?_, ?_, ?_, ?_⟩
  · have := h.bounded
    rwa [ResponseCache.live, List.length_map, hmax] at this
  · intro el hel
    exact h.hinted.varyNames _ (List.mem_map_of_mem hel)
  · intro el hel
    obtain ⟨r, cw, now, hcall, he⟩ := h.origin _ (List.mem_map_of_mem hel)
    have hmade := entryFromCapture_madeFrom he
    refine ⟨r, cw, now, hcall, h.settings.defaultTTL ▸ he, ?_⟩
    rw [hmade.baseKey_eq]
    exact hmade.key_eq
  · intro e present uses
    obtain ⟨_, _, hlive, _⟩ := h.linked.store h.hinted h.bounded e
    obtain ⟨_, _, _, hsub, _⟩ := h.linked.settleVary h.hinted e
    have hkept : (c.store e).live = present.take (newCache cfg).maxEntries := hmax ▸ hlive
    have hcut : evictedBy c e = present.drop (newCache cfg).maxEntries := by
      unfold evictedBy
      rw [hkept, List.length_take]
      rcases Nat.le_total (newCache cfg).maxEntries present.length with hle | hle
      · rw [min_eq_left hle]
      · rw [min_eq_right hle, List.drop_length, List.drop_of_length_le hle]
    rw [hkept, hcut]
    refine ⟨(List.take_append_drop _ _).symm, List.length_drop .., ?_⟩
    intro a ha b hb
    apply (Traced.recency_use h.recency hsub e).drop_lt_take (newCache cfg).maxEntries
    · rw [← List.map_take]
      exact List.mem_map_of_mem ha
    · rw [← List.map_drop]
      exact List.mem_map_of_mem hb

end ReverseProxyLb.Cache
