import Mathlib.Algebra.Ring.Nat
import Mathlib.Data.List.Basic
import Mathlib.Data.List.Induction
import Mathlib.Data.List.Nodup

/-!
# Sorted maps and sets

A finite map is the list of its entries in the order of their keys, each key once. A set
is a map to `Unit`.
-/

/-! ### The last of several items with one key -/

section LastOf

open List Option

variable {κ α β : Type} (key : α → κ)

/-- After `a` no item of the list has its key. -/
def LastOf (l : List α) (a : α) : Prop :=
  ∃ before after, l = before ++ a :: after ∧ ∀ b ∈ after, key b ≠ key a

theorem lastOf_cons (x : α) (l : List α) (a : α) :
    LastOf key (x :: l) a ↔ LastOf key l a ∨ (a = x ∧ ∀ b ∈ l, key b ≠ key x) := by
  constructor
  · rintro ⟨before, after, split, others⟩
    cases before with
    | nil =>
      obtain ⟨rfl, rfl⟩ := cons.inj split
      exact .inr ⟨rfl, others⟩
    | cons y before =>
      obtain ⟨rfl, rfl⟩ := cons.inj split
      exact .inl ⟨before, after, rfl, others⟩
  · rintro (⟨before, after, rfl, others⟩ | ⟨rfl, others⟩)
    · exact ⟨x :: before, after, rfl, others⟩
    · exact ⟨[], l, rfl, others⟩

variable {κ' : Type} {key} {l : List α}

theorem LastOf.mem {a : α} (last : LastOf key l a) : a ∈ l := by
  obtain ⟨before, after, rfl, _⟩ := last
  simp

variable (key) in
theorem exists_lastOf {l : List α} {k : κ} (occurs : ∃ a ∈ l, key a = k) :
    ∃ a, LastOf key l a ∧ key a = k := by
  induction l with
  | nil =>
    obtain ⟨a, inNil, _⟩ := occurs
    cases inNil
  | cons x l ih =>
    by_cases later : ∃ a ∈ l, key a = k
    · obtain ⟨a, last, isKey⟩ := ih later
      exact ⟨a, (lastOf_cons key x l a).mpr (.inl last), isKey⟩
    · obtain ⟨a, member, isKey⟩ := occurs
      rcases mem_cons.mp member with rfl | inRest
      · refine ⟨a, (lastOf_cons key a l a).mpr (.inr ⟨rfl, ?_⟩), isKey⟩
        exact fun b inRest same => later ⟨b, inRest, same.trans isKey⟩
      · exact absurd ⟨a, inRest, isKey⟩ later

theorem LastOf.unique {a b : α} (lastA : LastOf key l a) (lastB : LastOf key l b)
    (same : key a = key b) : a = b := by
  induction l with
  | nil => cases lastA.mem
  | cons x l ih =>
    rcases (lastOf_cons key x l a).mp lastA with inA | ⟨rfl, others⟩
    · rcases (lastOf_cons key x l b).mp lastB with inB | ⟨rfl, others⟩
      · exact ih inA inB
      · exact absurd same (others a inA.mem)
    · rcases (lastOf_cons key a l b).mp lastB with inB | ⟨rfl, _⟩
      · exact absurd same.symm (others b inB.mem)
      · rfl

/-- A partial map of the items that neither separates nor joins keys. -/
theorem lastOf_filterMap {f : α → Option β} {key' : β → κ'} (total : ∀ a ∈ l, (f a).isSome)
    (agrees : ∀ a b a' b', f a = some a' → f b = some b' → (key' a' = key' b' ↔ key a = key b))
    (b : β) : LastOf key' (l.filterMap f) b ↔ ∃ a, LastOf key l a ∧ f a = some b := by
  induction l with
  | nil => simp [LastOf]
  | cons x l ih =>
    obtain ⟨y, isImage⟩ := isSome_iff_exists.mp (total x mem_cons_self)
    have rest := ih (forall_mem_cons.mp total).2
    have others : (∀ c ∈ l.filterMap f, key' c ≠ key' y) ↔ ∀ a ∈ l, key a ≠ key x := by
      constructor
      · intro apart a inRest same
        obtain ⟨c, isImage'⟩ := isSome_iff_exists.mp (total a (mem_cons_of_mem x inRest))
        exact apart c (mem_filterMap.mpr ⟨a, inRest, isImage'⟩)
          ((agrees a x c y isImage' isImage).mpr same)
      · intro apart c inImage same
        obtain ⟨a, inRest, isImage'⟩ := mem_filterMap.mp inImage
        exact apart a inRest ((agrees a x c y isImage' isImage).mp same)
    rw [filterMap_cons_some isImage, lastOf_cons, rest, others]
    constructor
    · rintro (⟨a, last, isImage'⟩ | ⟨rfl, apart⟩)
      · exact ⟨a, (lastOf_cons key x l a).mpr (.inl last), isImage'⟩
      · exact ⟨x, (lastOf_cons key x l x).mpr (.inr ⟨rfl, apart⟩), isImage⟩
    · rintro ⟨a, last, isImage'⟩
      rcases (lastOf_cons key x l a).mp last with last | ⟨rfl, apart⟩
      · exact .inl ⟨a, last, isImage'⟩
      · exact .inr ⟨some.inj (isImage'.symm.trans isImage), apart⟩

variable (key) in
/-- Leave out every item after which another one has its key. -/
def lastOfEach [DecidableEq κ] : List α → List α
  | [] => []
  | a :: l => if ∃ b ∈ l, key b = key a then lastOfEach l else a :: lastOfEach l

theorem lastOfEach_sublist [DecidableEq κ] (l : List α) : (lastOfEach key l).Sublist l := by
  induction l with
  | nil => exact .slnil
  | cons a l ih =>
    rw [lastOfEach]
    split
    · exact ih.cons a
    · exact ih.cons_cons a

theorem mem_lastOfEach [DecidableEq κ] (l : List α) (a : α) :
    a ∈ lastOfEach key l ↔ LastOf key l a := by
  induction l with
  | nil => simp [lastOfEach, LastOf]
  | cons x l ih =>
    rw [lastOfEach, lastOf_cons]
    split
    · next later =>
      obtain ⟨b, inRest, same⟩ := later
      rw [ih]
      exact ⟨.inl, fun h => h.elim id fun ⟨_, others⟩ => absurd same (others b inRest)⟩
    · next last =>
      have apart : ∀ b ∈ l, key b ≠ key x := fun b inRest same => last ⟨b, inRest, same⟩
      rw [mem_cons, ih, or_comm]
      exact or_congr_right ⟨fun isHead => ⟨isHead, apart⟩, fun both => both.1⟩

theorem lastOf_lastOfEach [DecidableEq κ] (l : List α) (a : α) :
    LastOf key (lastOfEach key l) a ↔ LastOf key l a := by
  constructor
  · exact fun last => (mem_lastOfEach l a).mp last.mem
  · intro last
    -- the last item of this key among those that are left is `a` itself
    obtain ⟨b, lastB, same⟩ := exists_lastOf key
      ⟨a, (mem_lastOfEach l a).mpr last, rfl⟩
    have isA : b = a := ((mem_lastOfEach l b).mp lastB.mem).unique last same
    exact isA ▸ lastB

end LastOf

@[ext]
structure OrdMap (κ α : Type) [LT κ] where
  entries : List (κ × α)
  sorted : entries.Pairwise fun a b => a.1 < b.1

abbrev OrdSet (κ : Type) [LT κ] := OrdMap κ Unit

namespace OrdMap

open List

variable {κ α : Type} [LT κ]

instance [DecidableEq κ] [DecidableEq α] : DecidableEq (OrdMap κ α) := fun m n =>
  decidable_of_iff (m.entries = n.entries) OrdMap.ext_iff.symm

def empty : OrdMap κ α := ⟨[], .nil⟩

def keys (m : OrdMap κ α) : List κ := m.entries.map (·.1)

def mapValues {β : Type} (f : α → β) (m : OrdMap κ α) : OrdMap κ β :=
  ⟨m.entries.map fun e => (e.1, f e.2), pairwise_map.mpr m.sorted⟩

theorem eq_of_not_lt [IsStrictTotalOrder κ (· < ·)] {a b : κ} (notLt : ¬ a < b) (notGt : ¬ b < a) :
    a = b :=
  Std.Trichotomous.trichotomous a b notLt notGt

def find [DecidableEq κ] (m : OrdMap κ α) (key : κ) : Option α :=
  (m.entries.find? fun e => decide (e.1 = key)).map (·.2)

section Members

variable [IsStrictTotalOrder κ (· < ·)]

theorem nodup_keys (m : OrdMap κ α) : m.keys.Nodup := by
  apply pairwise_map.mpr
  apply m.sorted.imp
  intro a b less same
  exact irrefl b.1 (same ▸ less)

theorem find_eq_some_iff [DecidableEq κ] (m : OrdMap κ α) (key : κ) (v : α) :
    m.find key = some v ↔ (key, v) ∈ m.entries := by
  constructor
  · intro found
    obtain ⟨e, isFirst, rfl⟩ := Option.map_eq_some_iff.mp found
    have isKey : e.1 = key := by simpa using find?_some isFirst
    subst isKey
    exact mem_of_find?_eq_some isFirst
  · intro member
    cases search : m.entries.find? fun e => decide (e.1 = key) with
    | none => simpa using find?_eq_none.mp search _ member
    | some e =>
      have isKey : e.1 = key := by simpa using find?_some search
      have same := inj_on_of_nodup_map m.nodup_keys (mem_of_find?_eq_some search) member isKey
      rw [find, search, Option.map_some, same]

theorem ext_mem (m n : OrdMap κ α) (same : ∀ e, e ∈ m.entries ↔ e ∈ n.entries) : m = n := by
  have perm : m.entries.Perm n.entries :=
    (perm_ext_iff_of_nodup m.nodup_keys.of_map n.nodup_keys.of_map).mpr same
  ext1
  refine perm.eq_of_pairwise ?_ m.sorted n.sorted
  intro a b _ _ less greater
  exact absurd (IsTrans.trans _ _ _ less greater) (irrefl a.1)

end Members

section Insert

variable [DecidableLT κ]

/-- An entry with the same key is replaced. -/
def insertEntry (key : κ) (value : α) : List (κ × α) → List (κ × α)
  | [] => [(key, value)]
  | (k, v) :: rest =>
    if key < k then (key, value) :: (k, v) :: rest
    else if k < key then (k, v) :: insertEntry key value rest
    else (key, value) :: rest

variable [IsStrictTotalOrder κ (· < ·)]

theorem mem_insertEntry (key : κ) (value : α) (e : κ × α) {l : List (κ × α)}
    (sorted : l.Pairwise fun a b => a.1 < b.1) :
    e ∈ insertEntry key value l ↔ e = (key, value) ∨ (e.1 ≠ key ∧ e ∈ l) := by
  induction l with
  | nil => simp [insertEntry]
  | cons head rest ih =>
    obtain ⟨k, v⟩ := head
    obtain ⟨first, restSorted⟩ := pairwise_cons.mp sorted
    simp only [insertEntry]
    split
    · next before =>
      -- no entry of the map has the key
      have others : ∀ e ∈ (k, v) :: rest, e.1 ≠ key := by
        intro e member same
        rcases mem_cons.mp member with rfl | inRest
        · exact irrefl key (by simpa [← same] using before)
        · exact irrefl key (IsTrans.trans _ _ _ before (same ▸ first e inRest))
      rw [mem_cons]
      exact or_congr_right ⟨fun member => ⟨others e member, member⟩, fun both => both.2⟩
    · split
      · next after =>
        have notKey : e = (k, v) → e.1 ≠ key := by
          rintro rfl same
          exact irrefl key (by simpa [← same] using after)
        rw [mem_cons, ih restSorted, mem_cons]
        tauto
      · next notBefore notAfter =>
        have same : key = k := eq_of_not_lt notBefore notAfter
        subst same
        have isKey : e = (key, v) → e.1 = key := congrArg Prod.fst
        have others : e ∈ rest → e.1 ≠ key := fun inRest isKey => irrefl key (isKey ▸ first e inRest)
        rw [mem_cons, mem_cons]
        tauto

theorem sorted_insertEntry (key : κ) (value : α) {l : List (κ × α)}
    (sorted : l.Pairwise fun a b => a.1 < b.1) :
    (insertEntry key value l).Pairwise fun a b => a.1 < b.1 := by
  induction l with
  | nil => exact pairwise_singleton _ _
  | cons head rest ih =>
    obtain ⟨k, v⟩ := head
    obtain ⟨first, restSorted⟩ := pairwise_cons.mp sorted
    simp only [insertEntry]
    split
    · next before =>
      refine pairwise_cons.mpr ⟨?_, sorted⟩
      intro e member
      rcases mem_cons.mp member with rfl | inRest
      · exact before
      · exact IsTrans.trans _ _ _ before (first e inRest)
    · split
      · next after =>
        refine pairwise_cons.mpr ⟨?_, ih restSorted⟩
        intro e member
        rcases (mem_insertEntry key value e restSorted).mp member with rfl | ⟨_, inRest⟩
        · exact after
        · exact first e inRest
      · next notBefore notAfter =>
        have same : key = k := eq_of_not_lt notBefore notAfter
        exact pairwise_cons.mpr ⟨fun e inRest => same ▸ first e inRest, restSorted⟩

def insert (m : OrdMap κ α) (key : κ) (value : α) : OrdMap κ α :=
  ⟨insertEntry key value m.entries, sorted_insertEntry key value m.sorted⟩

theorem mem_insert (m : OrdMap κ α) (key : κ) (value : α) (e : κ × α) :
    e ∈ (m.insert key value).entries ↔ e = (key, value) ∨ (e.1 ≠ key ∧ e ∈ m.entries) :=
  mem_insertEntry key value e m.sorted

/-- The map that assigning each entry of a list in turn gives. -/
def ofList (l : List (κ × α)) : OrdMap κ α := l.foldl (fun m e => m.insert e.1 e.2) empty

variable (l : List (κ × α))

theorem ofList_concat (e : κ × α) : ofList (l ++ [e]) = (ofList l).insert e.1 e.2 :=
  foldl_append

theorem insertEntry_last (key : κ) (value : α) (l : List (κ × α)) (last : ∀ e ∈ l, e.1 < key) :
    insertEntry key value l = l ++ [(key, value)] := by
  induction l with
  | nil => rfl
  | cons head rest ih =>
    obtain ⟨k, v⟩ := head
    have after : k < key := last (k, v) mem_cons_self
    have notBefore : ¬ key < k := fun before => irrefl k (IsTrans.trans _ _ _ after before)
    simp only [insertEntry, notBefore, after, if_true, if_false, cons_append]
    rw [ih (forall_mem_cons.mp last).2]

/-- The sizes of the entries add up to no more than those of the list. -/
theorem sum_ofList_le (size : κ × α → Nat) (l : List (κ × α)) :
    ((ofList l).entries.map size).sum ≤ (l.map size).sum := by
  have step : ∀ (key : κ) (value : α) (l : List (κ × α)),
      ((insertEntry key value l).map size).sum ≤ (l.map size).sum + size (key, value) := by
    intro key value l
    fun_induction insertEntry key value l with
    | case1 => simp
    | case2 | case3 | case4 =>
      simp only [map_cons, sum_cons] at *
      omega
  induction l using reverseRecOn with
  | nil => exact Nat.le_refl _
  | append_singleton l last ih =>
    obtain ⟨k, v⟩ := last
    have added := step k v (ofList l).entries
    rw [ofList_concat, map_append, sum_append, map_singleton, sum_singleton]
    exact Nat.le_trans added (Nat.add_le_add_right ih _)

/-- Entries that come in order are appended. -/
theorem foldl_insert (m : OrdMap κ α) (l : List (κ × α))
    (sorted : (m.entries ++ l).Pairwise fun a b => a.1 < b.1) :
    l.foldl (fun m e => m.insert e.1 e.2) m = ⟨m.entries ++ l, sorted⟩ := by
  induction l generalizing m with
  | nil =>
    simp
  | cons head rest ih =>
    have last : ∀ e ∈ m.entries, e.1 < head.1 := fun e inMap =>
      (pairwise_append.mp sorted).2.2 e inMap head mem_cons_self
    have entries : (m.insert head.1 head.2).entries = m.entries ++ [head] :=
      insertEntry_last head.1 head.2 m.entries last
    rw [foldl_cons, ih (m.insert head.1 head.2) (by simpa [entries] using sorted)]
    simp [entries]

theorem mem_keys_insert (m : OrdMap κ α) (key : κ) (value : α) (k : κ) :
    k ∈ (m.insert key value).keys ↔ k = key ∨ k ∈ m.keys := by
  simp only [keys, mem_map, mem_insert]
  constructor
  · rintro ⟨e, rfl | ⟨_, isOld⟩, rfl⟩
    · exact .inl rfl
    · exact .inr ⟨e, isOld, rfl⟩
  · rintro (rfl | ⟨e, isOld, rfl⟩)
    · exact ⟨(k, value), .inl rfl, rfl⟩
    · by_cases same : e.1 = key
      · exact ⟨(key, value), .inl rfl, same.symm⟩
      · exact ⟨e, .inr ⟨same, isOld⟩, rfl⟩

/-- The same value is assigned to each of several keys. -/
theorem mem_foldl_insert_const {β : Type} (l : List (κ × β)) (m : OrdMap κ α) (value : α) (e : κ × α) :
    e ∈ (l.foldl (fun m x => m.insert x.1 value) m).entries ↔
      (e.1 ∈ l.map Prod.fst ∧ e.2 = value) ∨ (e.1 ∉ l.map Prod.fst ∧ e ∈ m.entries) := by
  induction l generalizing m with
  | nil => simp
  | cons x l ih =>
    rw [foldl_cons, ih, mem_insert, map_cons, mem_cons, Prod.ext_iff]
    tauto

/-- Of several entries with one key the last one stays. -/
theorem mem_ofList (e : κ × α) : e ∈ (ofList l).entries ↔ LastOf Prod.fst l e := by
  induction l using reverseRecOn with
  | nil => simp [ofList, empty, LastOf]
  | append_singleton l last ih =>
    rw [ofList_concat, mem_insert, ih]
    constructor
    · rintro (rfl | ⟨notLast, before, after, rfl, others⟩)
      · exact ⟨l, [], rfl, by simp⟩
      · refine ⟨before, after ++ [last], by simp, ?_⟩
        intro f inAfter
        rcases mem_append.mp inAfter with inAfter | isLast
        · exact others f inAfter
        · exact mem_singleton.mp isLast ▸ notLast.symm
    · rintro ⟨before, after, split, others⟩
      rcases eq_nil_or_concat after with rfl | ⟨after, other, rfl⟩
      · exact .inl (cons.inj (append_inj' split rfl).2).1.symm
      · rw [concat_eq_append, ← cons_append, ← append_assoc] at split
        obtain ⟨front, isLast⟩ := append_inj' split rfl
        obtain rfl : last = other := (cons.inj isLast).1
        refine .inr ⟨(others last (by simp)).symm, before, after, front, ?_⟩
        intro f inAfter
        exact others f (by simp [inAfter])

theorem ofList_sorted (sorted : l.Pairwise fun a b => a.1 < b.1) : ofList l = ⟨l, sorted⟩ := by
  exact foldl_insert empty l sorted

/-- When no two entries have the same key, their order does not matter. -/
theorem mem_ofList_of_nodup (distinct : (l.map Prod.fst).Nodup) (e : κ × α) :
    e ∈ (ofList l).entries ↔ e ∈ l := by
  rw [mem_ofList]
  constructor
  · exact LastOf.mem
  · intro member
    obtain ⟨before, after, rfl⟩ := append_of_mem member
    refine ⟨before, after, rfl, fun f inAfter same => ?_⟩
    rw [map_append, map_cons] at distinct
    have notAfter := (nodup_cons.mp (nodup_append.mp distinct).2.1).1
    exact notAfter (mem_map.mpr ⟨f, inAfter, same⟩)

theorem ofList_perm {l l' : List (κ × α)} (perm : l.Perm l') (distinct : (l.map Prod.fst).Nodup) :
    ofList l = ofList l' := by
  apply ext_mem
  intro e
  rw [mem_ofList_of_nodup l distinct,
    mem_ofList_of_nodup l' ((perm.map Prod.fst).nodup_iff.mp distinct), perm.mem_iff]

theorem ofList_entries (m : OrdMap κ α) : ofList m.entries = m :=
  ofList_sorted m.entries m.sorted

end Insert

end OrdMap
