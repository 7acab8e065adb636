/-
**Ordered finite maps and sets.**

`OrdMap κ α` is an association list whose keys are strictly increasing; the order is a field, so a
map is determined by its lookups (`OrdMap.ext_get?`) and its iteration order is the key order. An
`OrdSet κ` is a map to `Unit`.

* `get?_insert`, `get?_erase`, `get?_filter`, `get?_ofList` — what each operation does to a lookup.
* `total` — a sum over the bindings; `total_insert_of_none` and `total_erase_of_some` split one
  binding off it.
* `get?_foldl_erase`, `foldl_insert_get?`, `mem_foldl_insert` — erasing or inserting a list of keys.
-/

import Mathlib.Data.List.Sort
import Mathlib.Data.Prod.Lex
import Mathlib.Algebra.BigOperators.Group.List.Basic
import Mathlib.Algebra.Order.BigOperators.Group.List
import Mathlib.Algebra.GroupWithZero.Nat

universe u v w

/-- A finite map as an association list in strictly increasing key order. -/
structure OrdMap (κ : Type u) (α : Type v) [LinearOrder κ] where
  entries : List (κ × α)
  sorted : (entries.map Prod.fst).Pairwise (· < ·)
  deriving DecidableEq

/-- A finite set in increasing order. -/
abbrev OrdSet (κ : Type u) [LinearOrder κ] := OrdMap κ Unit

namespace OrdMap

variable {κ : Type u} {α : Type v} {β : Type w} [LinearOrder κ]

variable {key probe : κ} {value : α} {list : List (κ × α)}

/-! ### Operations -/

def empty : OrdMap κ α := ⟨[], List.Pairwise.nil⟩

instance : EmptyCollection (OrdMap κ α) := ⟨empty⟩

instance : Inhabited (OrdMap κ α) := ⟨empty⟩

/-- The first binding of a key in a list. -/
def find : List (κ × α) → κ → Option α
  | [], _ => none
  | (other, value) :: rest, key => if key = other then some value else find rest key

def get? (m : OrdMap κ α) (key : κ) : Option α :=
  find m.entries key

def keys (m : OrdMap κ α) : List κ :=
  m.entries.map Prod.fst

def values (m : OrdMap κ α) : List α :=
  m.entries.map Prod.snd

def size (m : OrdMap κ α) : Nat :=
  m.entries.length

def isEmpty (m : OrdMap κ α) : Bool :=
  m.entries.isEmpty

/-- The binding of the greatest key. -/
def last? (m : OrdMap κ α) : Option (κ × α) :=
  m.entries.getLast?

/-- A key is a member when it has a binding. -/
instance : Membership κ (OrdMap κ α) := ⟨fun m key => (m.get? key).isSome⟩

instance (m : OrdMap κ α) (key : κ) : Decidable (key ∈ m) :=
  inferInstanceAs (Decidable ((m.get? key).isSome = true))

/-- Sorted insertion, replacing an equal key. -/
def insertList (key : κ) (value : α) : List (κ × α) → List (κ × α)
  | [] => [(key, value)]
  | (other, old) :: rest =>
    if key < other then (key, value) :: (other, old) :: rest
    else if key = other then (key, value) :: rest
    else (other, old) :: insertList key value rest

theorem mem_insertList_fst {found : κ} (member : found ∈ (insertList key value list).map Prod.fst) :
    found = key ∨ found ∈ list.map Prod.fst := by
  induction list with
  | nil =>
    simp only [insertList, List.map_cons, List.map_nil, List.mem_singleton] at member
    exact Or.inl member
  | cons head rest ih =>
    unfold insertList at member
    split_ifs at member with less same
    · rcases List.mem_cons.mp member with here | there
      · exact Or.inl here
      · exact Or.inr there
    · rcases List.mem_cons.mp member with here | there
      · exact Or.inl here
      · exact Or.inr (List.mem_cons_of_mem _ there)
    · rcases List.mem_cons.mp member with here | there
      · exact Or.inr (by rw [here]; exact List.mem_cons_self)
      · rcases ih there with here | later
        · exact Or.inl here
        · exact Or.inr (List.mem_cons_of_mem _ later)

theorem insertList_sorted (key : κ) (value : α) (sorted : (list.map Prod.fst).Pairwise (· < ·)) :
    ((insertList key value list).map Prod.fst).Pairwise (· < ·) := by
  induction list with
  | nil => simp [insertList]
  | cons head rest ih =>
    obtain ⟨above, tail⟩ := List.pairwise_cons.mp sorted
    unfold insertList
    split_ifs with less same
    · refine List.pairwise_cons.mpr ⟨fun later member => ?_, sorted⟩
      rcases List.mem_cons.mp member with here | there
      · rw [here]; exact less
      · exact less.trans (above later there)
    · refine List.pairwise_cons.mpr ⟨fun later member => ?_, tail⟩
      rw [same]
      exact above later member
    · refine List.pairwise_cons.mpr ⟨fun later member => ?_, ih tail⟩
      rcases mem_insertList_fst member with here | there
      · rw [here]
        exact lt_of_le_of_ne (not_lt.mp less) (Ne.symm same)
      · exact above later there

def insert (m : OrdMap κ α) (key : κ) (value : α) : OrdMap κ α :=
  ⟨insertList key value m.entries, insertList_sorted key value m.sorted⟩

theorem filter_sorted (keep : κ × α → Bool) (sorted : (list.map Prod.fst).Pairwise (· < ·)) :
    ((list.filter keep).map Prod.fst).Pairwise (· < ·) :=
  sorted.sublist (List.filter_sublist.map Prod.fst)

def filter (keep : κ → α → Bool) (m : OrdMap κ α) : OrdMap κ α :=
  ⟨m.entries.filter fun entry => keep entry.1 entry.2, filter_sorted _ m.sorted⟩

def erase (m : OrdMap κ α) (key : κ) : OrdMap κ α :=
  m.filter fun other _ => other ≠ key

/-- Change the value of a key that has one. -/
def modify (m : OrdMap κ α) (key : κ) (change : α → α) : OrdMap κ α :=
  match m.get? key with
  | none => m
  | some value => m.insert key (change value)

/-- Change every value. -/
def mapKeyed (f : κ → α → β) (m : OrdMap κ α) : OrdMap κ β :=
  ⟨m.entries.map fun entry => (entry.1, f entry.1 entry.2), by
    rw [List.map_map]
    exact m.sorted⟩

/-- Later bindings of a key replace earlier ones. -/
def ofList (list : List (κ × α)) : OrdMap κ α :=
  list.foldl (fun m entry => m.insert entry.1 entry.2) empty

/-- Add an element to a set. -/
def add (s : OrdSet κ) (key : κ) : OrdSet κ :=
  s.insert key ()

/-- The set of the elements of a list. -/
def ofKeys (list : List κ) : OrdSet κ :=
  list.foldl add empty

/-- A sum over all bindings. -/
def total (f : κ → α → Nat) (m : OrdMap κ α) : Nat :=
  (m.entries.map fun entry => f entry.1 entry.2).sum

/-! ### Lookups -/

theorem nodup_keys (m : OrdMap κ α) : m.keys.Nodup :=
  m.sorted.imp fun less => ne_of_lt less

theorem find_cons (key other : κ) (old : α) (rest : List (κ × α)) :
    find ((other, old) :: rest) key = if key = other then some old else find rest key := rfl

theorem find_eq_some_of_mem (nodup : (list.map Prod.fst).Nodup) (member : (key, value) ∈ list) :
    find list key = some value := by
  induction list with
  | nil => cases member
  | cons head rest ih =>
    obtain ⟨other, old⟩ := head
    obtain ⟨absent, tail⟩ := List.nodup_cons.mp nodup
    rw [find_cons]
    rcases List.mem_cons.mp member with here | there
    · cases here
      exact if_pos rfl
    · have different : key ≠ other := by
        rintro rfl
        exact absent (List.mem_map.mpr ⟨(key, value), there, rfl⟩)
      rw [if_neg different]
      exact ih tail there

theorem mem_of_find_eq_some (found : find list key = some value) : (key, value) ∈ list := by
  induction list with
  | nil => cases found
  | cons head rest ih =>
    rw [find_cons] at found
    split_ifs at found with same
    · cases found
      rw [same]
      exact List.mem_cons_self
    · exact List.mem_cons_of_mem _ (ih found)

variable {m : OrdMap κ α}

theorem get?_eq_some_iff : m.get? key = some value ↔ (key, value) ∈ m.entries :=
  ⟨mem_of_find_eq_some, find_eq_some_of_mem m.nodup_keys⟩

theorem mem_iff : key ∈ m ↔ ∃ value, m.get? key = some value :=
  Option.isSome_iff_exists

theorem mem_keys : key ∈ m.keys ↔ key ∈ m := by
  rw [mem_iff]
  constructor
  · intro member
    obtain ⟨⟨_, value⟩, inside, rfl⟩ := List.mem_map.mp member
    exact ⟨value, get?_eq_some_iff.mpr inside⟩
  · rintro ⟨value, found⟩
    exact List.mem_map.mpr ⟨(key, value), get?_eq_some_iff.mp found, rfl⟩

theorem get?_eq_none_iff : m.get? key = none ↔ key ∉ m := by
  rw [mem_iff]
  cases m.get? key <;> simp

/-- **A map is determined by its lookups.** -/
theorem ext_get? {n : OrdMap κ α} (same : ∀ key, m.get? key = n.get? key) : m = n := by
  have entries : m.entries = n.entries := by
    have nodup : ∀ o : OrdMap κ α, o.entries.Nodup := fun o => o.nodup_keys.of_map _
    have perm : m.entries.Perm n.entries := by
      refine (List.perm_ext_iff_of_nodup (nodup m) (nodup n)).mpr fun entry => ?_
      rw [← get?_eq_some_iff (m := m), ← get?_eq_some_iff (m := n), same]
    have ordered : ∀ o : OrdMap κ α, o.entries.Pairwise fun first second => first.1 < second.1 :=
      fun o => List.pairwise_map.mp o.sorted
    refine perm.eq_of_pairwise ?_ (ordered m) (ordered n)
    intro first second _ _ less greater
    exact absurd greater (not_lt.mpr less.le)
  cases m
  cases n
  simp_all

@[simp] theorem get?_empty (key : κ) : (∅ : OrdMap κ α).get? key = none := rfl

@[simp] theorem not_mem_empty (key : κ) : key ∉ (∅ : OrdMap κ α) := by
  rw [mem_iff]
  simp

theorem isEmpty_iff : m.isEmpty = true ↔ m = ∅ := by
  constructor
  · intro empty
    refine ext_get? fun key => ?_
    unfold get?
    rw [List.isEmpty_iff.mp empty]
    rfl
  · rintro rfl
    rfl

theorem find_insertList (key probe : κ) (value : α) (list : List (κ × α))
    (sorted : (list.map Prod.fst).Pairwise (· < ·)) :
    find (insertList key value list) probe =
      if probe = key then some value else find list probe := by
  induction list with
  | nil => rw [insertList, find_cons]
  | cons head rest ih =>
    obtain ⟨other, old⟩ := head
    obtain ⟨_, tail⟩ := List.pairwise_cons.mp sorted
    unfold insertList
    by_cases less : key < other
    · rw [if_pos less, find_cons]
    by_cases same : key = other
    · rw [if_neg less, if_pos same, find_cons, find_cons, same]
      by_cases hit : probe = other <;> simp [hit]
    · rw [if_neg less, if_neg same, find_cons, find_cons, ih tail]
      by_cases hit : probe = key
      · simp [hit, same]
      · simp [hit]

theorem get?_insert (m : OrdMap κ α) (key probe : κ) (value : α) :
    (m.insert key value).get? probe = if probe = key then some value else m.get? probe :=
  find_insertList key probe value m.entries m.sorted

@[simp] theorem get?_insert_self (m : OrdMap κ α) (key : κ) (value : α) :
    (m.insert key value).get? key = some value := by
  rw [get?_insert, if_pos rfl]

theorem get?_insert_of_ne (m : OrdMap κ α) (value : α) (different : probe ≠ key) :
    (m.insert key value).get? probe = m.get? probe := by
  rw [get?_insert, if_neg different]

theorem insert_of_get? (found : m.get? key = some value) : m.insert key value = m :=
  ext_get? fun probe => by
    rw [get?_insert]
    split_ifs with same
    · rw [same, found]
    · rfl

theorem get?_modify (m : OrdMap κ α) (key probe : κ) (change : α → α) :
    (m.modify key change).get? probe =
      if probe = key then (m.get? key).map change else m.get? probe := by
  unfold modify
  cases found : m.get? key with
  | none =>
    split_ifs with same
    · rw [same, found]
      rfl
    · rfl
  | some value => exact get?_insert m key probe (change value)

@[simp] theorem mem_modify {change : α → α} : probe ∈ m.modify key change ↔ probe ∈ m := by
  rw [mem_iff, mem_iff, get?_modify]
  split_ifs with same
  · subst same
    simp
  · rfl

theorem get?_mapKeyed (f : κ → α → β) (m : OrdMap κ α) (key : κ) :
    (m.mapKeyed f).get? key = (m.get? key).map (f key) := by
  show find (m.entries.map fun entry => (entry.1, f entry.1 entry.2)) key = (find m.entries key).map (f key)
  induction m.entries with
  | nil => rfl
  | cons entry rest ih =>
    rw [List.map_cons, find_cons]
    rw [find_cons]
    split_ifs with same
    · rw [same]
      rfl
    · exact ih

theorem total_mapKeyed (f : κ → α → β) (m : OrdMap κ α) (g : κ → β → Nat) :
    (m.mapKeyed f).total g = m.total fun key value => g key (f key value) := by
  unfold total mapKeyed
  rw [List.map_map]
  rfl

theorem get?_filter (keep : κ → α → Bool) (m : OrdMap κ α) (key : κ) :
    (m.filter keep).get? key = (m.get? key).filter (keep key) := by
  apply Option.ext
  intro value
  rw [get?_eq_some_iff, Option.filter_eq_some_iff, get?_eq_some_iff]
  exact List.mem_filter

theorem get?_erase (m : OrdMap κ α) (key probe : κ) :
    (m.erase key).get? probe = if probe = key then none else m.get? probe := by
  rw [erase, get?_filter]
  by_cases same : probe = key
  · cases m.get? probe <;> simp [same]
  · cases m.get? probe <;> simp [same]

@[simp] theorem get?_erase_self (m : OrdMap κ α) (key : κ) : (m.erase key).get? key = none := by
  rw [get?_erase, if_pos rfl]

theorem get?_erase_of_ne (m : OrdMap κ α) (different : probe ≠ key) :
    (m.erase key).get? probe = m.get? probe := by
  rw [get?_erase, if_neg different]

theorem erase_of_get?_none (absent : m.get? key = none) : m.erase key = m := by
  refine ext_get? fun probe => ?_
  rw [get?_erase]
  split_ifs with same
  · rw [same, absent]
  · rfl

theorem erase_insert (m : OrdMap κ α) (key : κ) (value : α) :
    (m.erase key).insert key value = m.insert key value := by
  refine ext_get? fun probe => ?_
  rw [get?_insert, get?_insert, get?_erase]
  split_ifs <;> rfl

@[simp] theorem mem_insert : probe ∈ m.insert key value ↔ probe = key ∨ probe ∈ m := by
  simp only [mem_iff, get?_insert]
  by_cases same : probe = key <;> simp [same]

@[simp] theorem mem_erase : probe ∈ m.erase key ↔ probe ≠ key ∧ probe ∈ m := by
  simp only [mem_iff, get?_erase]
  by_cases same : probe = key <;> simp [same]

@[simp] theorem mem_add {s : OrdSet κ} : probe ∈ s.add key ↔ probe = key ∨ probe ∈ s :=
  mem_insert

/-- Two sets with the same elements are equal. -/
theorem ext_mem {s t : OrdSet κ} (same : ∀ key, key ∈ s ↔ key ∈ t) : s = t := by
  refine ext_get? fun key => ?_
  have iff := same key
  rw [mem_iff, mem_iff] at iff
  cases first : s.get? key with
  | none =>
    cases second : t.get? key with
    | none => rfl
    | some _ => exact absurd (iff.mpr ⟨_, second⟩) (by simp [first])
  | some _ =>
    cases second : t.get? key with
    | none => exact absurd (iff.mp ⟨_, first⟩) (by simp [second])
    | some _ => rfl

/-! ### Building from lists -/

theorem find_append (first second : List (κ × α)) (key : κ) :
    find (first ++ second) key = (find first key).or (find second key) := by
  induction first with
  | nil => rfl
  | cons head rest ih =>
    rw [List.cons_append, find_cons, find_cons, ih]
    split_ifs <;> rfl

theorem foldl_insert_get? (list : List (κ × α)) (m : OrdMap κ α) (key : κ) :
    (list.foldl (fun acc entry => acc.insert entry.1 entry.2) m).get? key =
      (find list.reverse key).or (m.get? key) := by
  induction list generalizing m with
  | nil => rfl
  | cons head rest ih =>
    rw [List.foldl_cons, ih, get?_insert, List.reverse_cons, find_append, Option.or_assoc]
    congr 1
    obtain ⟨other, old⟩ := head
    by_cases same : key = other <;> simp [same, find]

/-- The last binding of a key in the list wins. -/
theorem get?_ofList (list : List (κ × α)) (key : κ) :
    (ofList list).get? key = find list.reverse key := by
  rw [ofList, foldl_insert_get?]
  exact Option.or_none

theorem find_filter (keep : κ → Bool) (list : List (κ × α)) (key : κ) :
    find (list.filter fun entry => keep entry.1) key = if keep key then find list key else none := by
  induction list with
  | nil => exact (ite_self none).symm
  | cons head rest ih =>
    obtain ⟨other, old⟩ := head
    rw [List.filter_cons, find_cons]
    by_cases kept : keep other = true
    · rw [if_pos kept, find_cons, ih]
      by_cases same : key = other
      · rw [if_pos same, if_pos same, same, if_pos kept]
      · rw [if_neg same, if_neg same]
    · rw [if_neg kept, ih]
      by_cases same : key = other
      · rw [same, if_neg kept, if_neg kept]
      · rw [if_neg same]

theorem ofList_filter (keep : κ → Bool) (list : List (κ × α)) :
    ofList (list.filter fun entry => keep entry.1) = (ofList list).filter fun key _ => keep key := by
  refine ext_get? fun key => ?_
  rw [get?_ofList, get?_filter, get?_ofList, ← List.filter_reverse, find_filter]
  cases find list.reverse key with
  | none => exact ite_self none
  | some value => rw [Option.filter_some]

/-- A list sorted by key is the map it builds. -/
theorem ofList_sorted (sorted : (list.map Prod.fst).Pairwise (· < ·)) :
    ofList list = ⟨list, sorted⟩ := by
  refine ext_get? fun key => Option.ext fun value => ?_
  have nodup : (list.map Prod.fst).Nodup := sorted.imp fun less => ne_of_lt less
  have reversed : (list.reverse.map Prod.fst).Nodup := by
    rw [List.map_reverse]
    exact List.nodup_reverse.mpr nodup
  rw [get?_ofList, get?_eq_some_iff]
  exact ⟨fun found => List.mem_reverse.mp (mem_of_find_eq_some found),
    fun member => find_eq_some_of_mem reversed (List.mem_reverse.mpr member)⟩

theorem mem_foldl_insert (list : List (κ × α)) (m : OrdMap κ α) (key : κ) :
    key ∈ list.foldl (fun acc entry => acc.insert entry.1 entry.2) m ↔
      key ∈ list.map Prod.fst ∨ key ∈ m := by
  induction list generalizing m with
  | nil => simp
  | cons head rest ih =>
    rw [List.foldl_cons, ih, mem_insert, List.map_cons, List.mem_cons]
    tauto

@[simp] theorem mem_ofList : key ∈ ofList list ↔ key ∈ list.map Prod.fst := by
  rw [ofList, mem_foldl_insert]
  exact or_iff_left (not_mem_empty key)

theorem mem_foldl_add (list : List κ) (s : OrdSet κ) (key : κ) :
    key ∈ list.foldl add s ↔ key ∈ list ∨ key ∈ s := by
  induction list generalizing s with
  | nil => simp
  | cons head rest ih =>
    rw [List.foldl_cons, ih, mem_add, List.mem_cons]
    tauto

@[simp] theorem mem_ofKeys {list : List κ} : key ∈ ofKeys list ↔ key ∈ list := by
  rw [ofKeys, mem_foldl_add]
  exact or_iff_left (not_mem_empty key)

theorem mem_foldl_erase (list : List κ) (m : OrdMap κ α) (key : κ) :
    key ∈ list.foldl erase m ↔ key ∉ list ∧ key ∈ m := by
  induction list generalizing m with
  | nil => simp
  | cons head rest ih =>
    rw [List.foldl_cons, ih, mem_erase, List.mem_cons]
    tauto

/-! ### Sums -/

theorem get?_foldl_erase (list : List κ) (m : OrdMap κ α) (key : κ) :
    (list.foldl erase m).get? key = if key ∈ list then none else m.get? key := by
  induction list generalizing m with
  | nil => simp
  | cons head rest ih =>
    rw [List.foldl_cons, ih, get?_erase]
    by_cases here : key = head <;> by_cases there : key ∈ rest <;> simp [here, there]

theorem insertList_perm (value : α) (absent : key ∉ list.map Prod.fst) :
    (insertList key value list).Perm ((key, value) :: list) := by
  induction list with
  | nil => exact List.Perm.refl _
  | cons head rest ih =>
    obtain ⟨different, later⟩ := not_or.mp (mt List.mem_cons.mpr absent)
    unfold insertList
    split_ifs
    · exact List.Perm.refl _
    · exact ((ih later).cons _).trans (List.Perm.swap _ _ _)

theorem total_insert_of_none (f : κ → α → Nat) (value : α) (absent : m.get? key = none) :
    (m.insert key value).total f = f key value + m.total f := by
  have fresh : key ∉ m.keys := fun member => get?_eq_none_iff.mp absent (mem_keys.mp member)
  have perm := (insertList_perm value fresh).map fun entry => f entry.1 entry.2
  exact perm.sum_eq

theorem total_erase_of_some (f : κ → α → Nat) (found : m.get? key = some value) :
    m.total f = f key value + (m.erase key).total f := by
  have rebuilt : (m.erase key).insert key value = m := by
    refine ext_get? fun probe => ?_
    rw [erase_insert, get?_insert]
    split_ifs with same
    · rw [same, found]
    · rfl
  rw [← total_insert_of_none f value (get?_erase_self m key), rebuilt]

theorem total_insert (m : OrdMap κ α) (key : κ) (value : α) (f : κ → α → Nat) :
    (m.insert key value).total f = f key value + (m.erase key).total f := by
  rw [← erase_insert, total_insert_of_none f value (get?_erase_self m key)]

theorem le_total (f : κ → α → Nat) (found : m.get? key = some value) : f key value ≤ m.total f := by
  rw [total_erase_of_some f found]
  exact Nat.le_add_right _ _

/-! ### The greatest key -/

theorem last?_eq_some_iff :
    m.last? = some (key, value) ↔ m.get? key = some value ∧ ∀ other ∈ m, other ≤ key := by
  have ordered := List.pairwise_map.mp m.sorted
  constructor
  · intro found
    obtain ⟨before, whole⟩ := List.getLast?_eq_some_iff.mp found
    refine ⟨get?_eq_some_iff.mpr (by rw [whole]; simp), fun other member => ?_⟩
    obtain ⟨held, at_⟩ := mem_iff.mp member
    rw [get?_eq_some_iff, whole, List.mem_append, List.mem_singleton] at at_
    rw [whole, List.pairwise_append] at ordered
    rcases at_ with earlier | same
    · exact (ordered.2.2 _ earlier _ (List.mem_singleton_self _)).le
    · exact (congrArg Prod.fst same).le
  · rintro ⟨found, greatest⟩
    have inside := get?_eq_some_iff.mp found
    cases last : m.last? with
    | none =>
      rw [last?, List.getLast?_eq_none_iff] at last
      rw [last] at inside
      cases inside
    | some final =>
      obtain ⟨before, whole⟩ := List.getLast?_eq_some_iff.mp last
      have bound : final.1 ≤ key :=
        greatest final.1 (mem_iff.mpr ⟨final.2, get?_eq_some_iff.mpr (by rw [whole]; simp)⟩)
      rw [whole, List.mem_append, List.mem_singleton] at inside
      rw [whole, List.pairwise_append] at ordered
      rcases inside with earlier | same
      · exact absurd (ordered.2.2 _ earlier _ (List.mem_singleton_self _)) (not_lt.mpr bound)
      · exact congrArg some same.symm

/-- A key above all others goes last. -/
theorem entries_insert_of_above (above : ∀ other ∈ m, other < key) (value : α) :
    (m.insert key value).entries = m.entries ++ [(key, value)] := by
  have inserted : ∀ list : List (κ × α), (∀ entry ∈ list, entry.1 < key) →
      insertList key value list = list ++ [(key, value)] := by
    intro list below
    induction list with
    | nil => rfl
    | cons head rest ih =>
      obtain ⟨first, later⟩ := List.forall_mem_cons.mp below
      unfold insertList
      rw [if_neg (not_lt.mpr first.le), if_neg (ne_of_gt first), ih later]
      rfl
  refine inserted m.entries fun entry inside => above entry.1 (mem_iff.mpr ⟨entry.2, ?_⟩)
  exact get?_eq_some_iff.mpr inside

/-- No key passes the last one. -/
def Below (last : Option κ) (m : OrdMap κ α) : Prop :=
  ∀ key ∈ m, last.any (key ≤ ·) = true

section Below

variable {last : Option κ}

/-- A key that passes the last one passes all. -/
theorem Below.above (below : Below last m) (passes : last.any (key ≤ ·) = false) :
    ∀ other ∈ m, other < key := by
  intro other inside
  have before := below other inside
  cases last with
  | none => cases before
  | some previous =>
    rw [Option.any_some, decide_eq_true_eq] at before
    rw [Option.any_some, decide_eq_false_iff_not, not_le] at passes
    exact before.trans_lt passes

theorem Below.insert (below : Below last m) (passes : last.any (key ≤ ·) = false) (value : α) :
    Below (some key) (m.insert key value) := by
  intro other inside
  rcases mem_insert.mp inside with rfl | old
  · simp
  · simpa using (below.above passes other old).le

end Below

/-- Writing at the greatest key. -/
theorem last?_insert {old : α} (found : m.last? = some (key, old)) (value : α) :
    (m.insert key value).last? = some (key, value) := by
  obtain ⟨_, greatest⟩ := last?_eq_some_iff.mp found
  refine last?_eq_some_iff.mpr ⟨get?_insert_self m key value, fun other member => ?_⟩
  rw [mem_iff, get?_insert] at member
  by_cases same : other = key
  · exact same.le
  · rw [if_neg same] at member
    exact greatest other (mem_iff.mpr member)

theorem insert_insert (m : OrdMap κ α) (key : κ) (first second : α) :
    (m.insert key first).insert key second = m.insert key second := by
  refine ext_get? fun probe => ?_
  rw [get?_insert, get?_insert, get?_insert]
  split_ifs <;> rfl

end OrdMap
