/-
**Maps from keys to sets of items.**

A multimap that stores no empty set (`Full`): `link` adds an item under a key and `unlink` takes it out
again, together with the key once nothing is left under it. What each does is said through `items`, the
set stored under a key.
-/

import Sider.Lib.OrdMap
import Mathlib.Data.Finset.Card

namespace Multimap

variable {κ ι : Type} [LinearOrder κ] [LinearOrder ι] {key : κ}

variable {m : OrdMap κ (OrdSet ι)}

/-- The items under a key. -/
def items (m : OrdMap κ (OrdSet ι)) (key : κ) : OrdSet ι :=
  (m.get? key).getD ∅

def link (m : OrdMap κ (OrdSet ι)) (key : κ) (item : ι) : OrdMap κ (OrdSet ι) :=
  m.insert key ((items m key).add item)

def unlink (item : ι) (m : OrdMap κ (OrdSet ι)) (key : κ) : OrdMap κ (OrdSet ι) :=
  match m.get? key with
  | none => m
  | some found =>
    if (found.erase item).isEmpty then m.erase key else m.insert key (found.erase item)

/-- No stored set is empty. -/
def Full (m : OrdMap κ (OrdSet ι)) : Prop :=
  ∀ key found, m.get? key = some found → found.isEmpty = false

theorem isEmpty_eq_false_iff {s : OrdSet ι} : s.isEmpty = false ↔ ∃ item, item ∈ s := by
  rw [Bool.eq_false_iff, Ne, OrdMap.isEmpty_iff]
  constructor
  · intro some
    by_contra none
    exact some (OrdMap.ext_mem fun item => iff_of_false (fun inside => none ⟨item, inside⟩)
      (OrdMap.not_mem_empty item))
  · rintro ⟨item, inside⟩ rfl
    exact OrdMap.not_mem_empty item inside

theorem items_of_get? {found : OrdSet ι} (hit : m.get? key = some found) : items m key = found := by
  unfold items
  rw [hit]
  rfl

theorem mem_items {item : ι} :
    item ∈ items m key ↔ ∃ found, m.get? key = some found ∧ item ∈ found := by
  unfold items
  cases m.get? key <;> simp

theorem items_insert (m : OrdMap κ (OrdSet ι)) (key probe : κ) (found : OrdSet ι) :
    items (m.insert key found) probe = if probe = key then found else items m probe := by
  unfold items
  rw [OrdMap.get?_insert]
  split_ifs <;> rfl

theorem items_erase (m : OrdMap κ (OrdSet ι)) (key probe : κ) :
    items (m.erase key) probe = if probe = key then ∅ else items m probe := by
  unfold items
  rw [OrdMap.get?_erase]
  split_ifs <;> rfl

/-! ### Sizes of sets -/

theorem isEmpty_eq (s : OrdSet ι) : s.isEmpty = decide (s.size = 0) := by
  unfold OrdMap.isEmpty OrdMap.size
  cases s.entries <;> rfl

theorem size_eq_total (s : OrdSet ι) : s.size = s.total fun _ _ => 1 := by
  unfold OrdMap.total OrdMap.size
  simp

theorem size_add (s : OrdSet ι) (item : ι) :
    (s.add item).size = s.size + if item ∈ s then 0 else 1 := by
  split_ifs with inside
  · have same : s.add item = s := OrdMap.ext_mem fun probe => by
      rw [OrdMap.mem_add]
      exact ⟨fun either => either.elim (fun same => same ▸ inside) fun old => old, .inr⟩
    rw [same, Nat.add_zero]
  · rw [size_eq_total, size_eq_total, OrdMap.add,
      OrdMap.total_insert_of_none _ _ (OrdMap.get?_eq_none_iff.mpr inside), Nat.add_comm]

theorem size_erase (s : OrdSet ι) (item : ι) :
    s.size = (s.erase item).size + if item ∈ s then 1 else 0 := by
  split_ifs with inside
  · obtain ⟨_, found⟩ := OrdMap.mem_iff.mp inside
    rw [size_eq_total, size_eq_total, OrdMap.total_erase_of_some _ found, Nat.add_comm]
  · rw [OrdMap.erase_of_get?_none (OrdMap.get?_eq_none_iff.mpr inside), Nat.add_zero]

theorem size_eq_card {s : OrdSet ι} {t : Finset ι} (same : ∀ item, item ∈ s ↔ item ∈ t) :
    s.size = t.card := by
  have keys : s.keys.toFinset = t := Finset.ext fun item => by
    rw [List.mem_toFinset, OrdMap.mem_keys, same]
  rw [← keys, List.toFinset_card_of_nodup s.nodup_keys]
  exact (List.length_map _).symm

/-! ### Linking and unlinking -/

theorem items_link (m : OrdMap κ (OrdSet ι)) (key probe : κ) (item : ι) :
    items (link m key item) probe = if probe = key then (items m key).add item else items m probe := by
  unfold link
  rw [items, OrdMap.get?_insert]
  split_ifs <;> rfl

theorem items_unlink (m : OrdMap κ (OrdSet ι)) (key probe : κ) (item : ι) :
    items (unlink item m key) probe = if probe = key then (items m key).erase item else items m probe := by
  unfold unlink items
  cases found : m.get? key with
  | none =>
    split_ifs with same
    · rw [same, found]
      rfl
    · rfl
  | some set =>
    dsimp only
    split_ifs with empty same
    · rw [same, OrdMap.get?_erase_self]
      exact (OrdMap.isEmpty_iff.mp empty).symm
    · rw [OrdMap.get?_erase_of_ne m same]
    · rename_i same
      rw [same, OrdMap.get?_insert_self]
      rfl
    · rename_i other
      rw [OrdMap.get?_insert_of_ne m _ other]

theorem full_link (full : Full m) (key : κ) (item : ι) : Full (link m key item) := by
  intro probe found hit
  unfold link at hit
  rw [OrdMap.get?_insert] at hit
  split_ifs at hit
  · cases hit
    exact isEmpty_eq_false_iff.mpr ⟨item, OrdMap.mem_add.mpr (.inl rfl)⟩
  · exact full probe found hit

theorem full_unlink (full : Full m) (key : κ) (item : ι) : Full (unlink item m key) := by
  intro probe found hit
  unfold unlink at hit
  split at hit
  · exact full probe found hit
  · split_ifs at hit with empty
    · rw [OrdMap.get?_erase] at hit
      split_ifs at hit
      exact full probe found hit
    · rw [OrdMap.get?_insert] at hit
      split_ifs at hit
      · cases hit
        exact Bool.eq_false_iff.mpr empty
      · exact full probe found hit

/-- Taking an item out from under several keys. -/
theorem items_foldl_unlink (keys : List κ) (m : OrdMap κ (OrdSet ι)) (probe : κ) (item : ι) :
    items (keys.foldl (unlink item) m) probe =
      if probe ∈ keys then (items m probe).erase item else items m probe := by
  induction keys generalizing m with
  | nil => simp
  | cons key keys ih =>
    rw [List.foldl_cons, ih, items_unlink]
    by_cases same : probe = key
    · subst same
      by_cases later : probe ∈ keys <;> simp [later, OrdMap.erase_of_get?_none]
    · simp [same]

theorem full_foldl_unlink (full : Full m) (keys : List κ) (item : ι) :
    Full (keys.foldl (unlink item) m) := by
  induction keys generalizing m with
  | nil => exact full
  | cons key keys ih => exact ih (full_unlink full key item)

end Multimap
