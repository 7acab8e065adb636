/-
**Applying a prepared result.**

* `image?_apply` — after `apply` a key holds its prepared image, or what it held before.
* `Admissible s p` — the prepared result fits its store; then `apply` keeps the invariant
  (`Admissible.sound`, `Admissible.valid`).
* `Overlay keys touched s t p` — the case of every preparation on a shadow: the entries are the keys
  on which a tentative store of some keys differs from the real one. Such a result is admissible, and
  applying it lays the tentative store over the real one, byte count included (`Overlay.apply`).
-/

import Sider.Storage.Locality

namespace Sider

variable {entries : List (Bytes × Option Image)} {p : Prepared} {keys : List Bytes} {t s : Store}

namespace Store

variable {rest : Nat} {key : Bytes}

/-! ### Images after application -/

theorem removed_withWatches (s : Store) (watches : Registry) (key : Bytes) :
    ∃ after, { s with watches := watches }.removed key = { s.removed key with watches := after } := by
  unfold removed
  cases s.values.get? key with
  | none => exact ⟨watches, rfl⟩
  | some entry => exact ⟨_, rfl⟩

/-- Dropping keys removes them, and differs from that in the watches only. -/
theorem foldl_dropKey_eq (keys : List Bytes) (s : Store) (watches : Registry) :
    ∃ after, keys.foldl dropKey { s with watches := watches } =
      { keys.foldl removed s with watches := after } := by
  induction keys generalizing s watches with
  | nil => exact ⟨watches, rfl⟩
  | cons key others ih =>
    obtain ⟨between, same⟩ := removed_withWatches s (watches.invalidate key) key
    obtain ⟨after, rest⟩ := ih (s.removed key) between
    refine ⟨after, ?_⟩
    rw [List.foldl_cons, List.foldl_cons, ← rest, ← same]
    rfl

theorem image?_foldl_dropKey (keys : List Bytes) (s : Store) (probe : Bytes) :
    (keys.foldl dropKey s).image? probe = if probe ∈ keys then none else s.image? probe := by
  obtain ⟨_, same⟩ := foldl_dropKey_eq keys s s.watches
  exact (congrArg (image? · probe) same).trans (image?_foldl_removed keys s probe)

theorem image?_putEntry (s : Store) (entry : Bytes × Option Image) (probe : Bytes) :
    (s.putEntry entry).image? probe =
      if probe = entry.1 then entry.2.or (s.image? probe) else s.image? probe := by
  obtain ⟨key, image⟩ := entry
  cases image with
  | none =>
    split_ifs <;> rfl
  | some image => exact image?_installEntry s key probe image

theorem image?_foldl_putEntry (nodup : (entries.map Prod.fst).Nodup) (s : Store) (probe : Bytes) :
    (entries.foldl putEntry s).image? probe =
      ((OrdMap.find entries probe).getD none).or (s.image? probe) := by
  induction entries generalizing s with
  | nil => rfl
  | cons entry others ih =>
    obtain ⟨key, image⟩ := entry
    obtain ⟨fresh, tail⟩ := List.nodup_cons.mp nodup
    rw [List.foldl_cons, ih tail, image?_putEntry, OrdMap.find_cons]
    by_cases same : probe = key
    · have gone : OrdMap.find others probe = none := by
        cases hit : OrdMap.find others probe with
        | none => rfl
        | some other =>
          have inside := OrdMap.mem_of_find_eq_some hit
          exact absurd (List.mem_map.mpr ⟨(probe, other), inside, same⟩) fresh
      rw [gone, if_pos same, if_pos same]
      rfl
    · rw [if_neg same, if_neg same]

/-- **What a key holds after application.** -/
theorem image?_apply (s : Store) (p : Prepared) (nodup : (p.entries.map Prod.fst).Nodup)
    (probe : Bytes) :
    (s.apply p).image? probe = (OrdMap.find p.entries probe).getD (s.image? probe) := by
  unfold apply
  rw [image?_foldl_putEntry nodup, image?_foldl_dropKey]
  cases hit : OrdMap.find p.entries probe with
  | none =>
    have absent : probe ∉ p.entries.map Prod.fst := by
      intro member
      obtain ⟨entry, inside, rfl⟩ := List.mem_map.mp member
      rw [OrdMap.find_eq_some_of_mem nodup (show (entry.1, entry.2) ∈ p.entries from inside)] at hit
      cases hit
    rw [if_neg absent]
    rfl
  | some image =>
    have member : probe ∈ p.entries.map Prod.fst :=
      List.mem_map.mpr ⟨(probe, image), OrdMap.mem_of_find_eq_some hit, rfl⟩
    rw [if_pos member]
    cases image <;> rfl

theorem image?_apply_of_not_mem (nodup : (p.entries.map Prod.fst).Nodup) {probe : Bytes}
    (absent : probe ∉ p.entries.map Prod.fst) : (s.apply p).image? probe = s.image? probe := by
  rw [image?_apply s p nodup]
  cases hit : OrdMap.find p.entries probe with
  | none => rfl
  | some image =>
    exact absurd (List.mem_map.mpr ⟨(probe, image), OrdMap.mem_of_find_eq_some hit, rfl⟩) absent

theorem image?_apply_nil (none : p.entries = []) (probe : Bytes) :
    (s.apply p).image? probe = s.image? probe :=
  image?_apply_of_not_mem (by rw [none]; exact List.nodup_nil) (by rw [none]; exact nofun)

theorem settings_putEntry (s : Store) (entry : Bytes × Option Image) :
    (s.putEntry entry).config = s.config ∧ (s.putEntry entry).clock = s.clock := by
  unfold putEntry
  split
  · exact ⟨config_installEntry s _ _, clock_installEntry s _ _⟩
  · exact ⟨rfl, rfl⟩

theorem settings_foldl_dropKey (keys : List Bytes) (s : Store) :
    (keys.foldl dropKey s).config = s.config ∧ (keys.foldl dropKey s).clock = s.clock := by
  obtain ⟨_, same⟩ := foldl_dropKey_eq keys s s.watches
  obtain ⟨config, clock⟩ := settings_foldl_removed keys s
  exact ⟨(congrArg Store.config same).trans config, (congrArg Store.clock same).trans clock⟩

theorem settings_apply (s : Store) (p : Prepared) :
    (s.apply p).config = s.config ∧ (s.apply p).clock = s.clock := by
  have puts : ∀ (entries : List (Bytes × Option Image)) (t : Store),
      (entries.foldl putEntry t).config = t.config ∧ (entries.foldl putEntry t).clock = t.clock := by
    intro entries
    induction entries with
    | nil => exact fun _ => ⟨rfl, rfl⟩
    | cons entry others ih =>
      intro t
      obtain ⟨config, clock⟩ := settings_putEntry t entry
      exact ⟨(ih _).1.trans config, (ih _).2.trans clock⟩
  obtain ⟨config, clock⟩ := settings_foldl_dropKey (p.entries.map Prod.fst) (s.started p)
  exact ⟨(puts _ _).1.trans config, (puts _ _).2.trans clock⟩

theorem config_apply (s : Store) (p : Prepared) : (s.apply p).config = s.config :=
  (settings_apply s p).1

theorem clock_apply (s : Store) (p : Prepared) : (s.apply p).clock = s.clock :=
  (settings_apply s p).2

/-- Every memory collection among the entries is the one its key holds. -/
def EntriesInherit (s : Store) (entries : List (Bytes × Option Image)) : Prop :=
  ∀ key image collection, (key, some image) ∈ entries → image.value = .memory collection →
    ∃ old, s.image? key = some old ∧ old.value = .memory collection

theorem apply_inherits (nodup : (p.entries.map Prod.fst).Nodup)
    (inherit : EntriesInherit s p.entries) : Inherits s (s.apply p) := by
  intro key image collection found same
  rw [image?_apply s p nodup] at found
  cases hit : OrdMap.find p.entries key with
  | none =>
    rw [hit] at found
    exact ⟨image, found, same⟩
  | some after =>
    rw [hit] at found
    exact inherit key image collection (found ▸ OrdMap.mem_of_find_eq_some hit) same

/-! ### Indexes after application -/

theorem indexed_foldl_dropKey (holds : Indexed s) : Indexed (keys.foldl dropKey s) := by
  induction keys generalizing s with
  | nil => exact holds
  | cons key others ih => exact ih (indexed_removed (holds.withWatches _) key)

theorem indexed_foldl_putEntry (holds : Indexed s) : Indexed (entries.foldl putEntry s) := by
  induction entries generalizing s with
  | nil => exact holds
  | cons entry others ih =>
    refine ih ?_
    unfold putEntry
    split
    · exact indexed_installEntry holds _ _
    · exact holds

theorem apply_indexed (holds : Indexed s) (p : Prepared) : Indexed (s.apply p) :=
  indexed_foldl_putEntry (indexed_foldl_dropKey ⟨holds.expirations, holds.memberExpirations⟩)

/-! ### Accounting after application -/

theorem foldl_dropKey_sound (nodup : keys.Nodup) (holds : Sound rest s) :
    Sound rest (keys.foldl dropKey s) ∧
      (keys.foldl dropKey s).usedBytes + heldAll s keys = s.usedBytes := by
  obtain ⟨watches, same⟩ := foldl_dropKey_eq keys s s.watches
  obtain ⟨sound, used⟩ := foldl_removed_sound nodup holds
  rw [same]
  exact ⟨sound.withWatches watches, used⟩

/-- The charge of a prepared entry. -/
def entryCharge (entry : Bytes × Option Image) : Nat :=
  match entry.2 with
  | some image => entrySize entry.1 image.value
  | none => 0

def entriesCharge (entries : List (Bytes × Option Image)) : Nat :=
  (entries.map entryCharge).sum

/-- Every prepared image is good for its key. -/
def GoodEntries (entries : List (Bytes × Option Image)) : Prop :=
  ∀ entry ∈ entries, ∀ image, entry.2 = some image → image.Good entry.1

theorem putEntry_sound {entry : Bytes × Option Image} (holds : Sound rest s)
    (good : ∀ image, entry.2 = some image → image.Good entry.1)
    (absent : s.image? entry.1 = none)
    (fits : s.usedBytes + entryCharge entry ≤ s.config.maxDatasetBytes) :
    Sound rest (s.putEntry entry) ∧ (s.putEntry entry).usedBytes = s.usedBytes + entryCharge entry := by
  obtain ⟨key, image⟩ := entry
  cases image with
  | none => exact ⟨holds, rfl⟩
  | some image =>
    have held : s.held key = 0 := by
      unfold Store.held
      rw [absent]
    have word := quota_lt_word s.config
    have own : image.Good key := good image rfl
    change s.usedBytes + entrySize key image.value ≤ _ at fits
    have used := usedBytes_installEntry holds own
      (show entrySize key image.value < Machine.word by omega)
    constructor
    · exact sound_installEntry holds own (show s.usedBytes + entrySize key image.value ≤
        s.config.maxDatasetBytes + s.held key by omega)
    · show (s.installEntry key image).usedBytes = s.usedBytes + entrySize key image.value
      omega

theorem foldl_putEntry_sound (nodup : (entries.map Prod.fst).Nodup) (holds : Sound rest s)
    (good : GoodEntries entries) (absent : ∀ entry ∈ entries, s.image? entry.1 = none)
    (fits : s.usedBytes + entriesCharge entries ≤ s.config.maxDatasetBytes) :
    Sound rest (entries.foldl putEntry s) ∧
      (entries.foldl putEntry s).usedBytes = s.usedBytes + entriesCharge entries := by
  induction entries generalizing s with
  | nil => exact ⟨holds, rfl⟩
  | cons entry others ih =>
    obtain ⟨fresh, tail⟩ := List.nodup_cons.mp nodup
    have split : entriesCharge (entry :: others) = entryCharge entry + entriesCharge others := rfl
    obtain ⟨sound, used⟩ := putEntry_sound holds (good entry List.mem_cons_self)
      (absent entry List.mem_cons_self) (by omega)
    obtain ⟨final, total⟩ := ih tail sound
      (fun later member => good later (List.mem_cons_of_mem _ member))
      (fun later member => by
        have different : later.1 ≠ entry.1 := fun same =>
          fresh (same ▸ List.mem_map.mpr ⟨later, member, rfl⟩)
        rw [image?_putEntry, if_neg different]
        exact absent later (List.mem_cons_of_mem _ member))
      (by rw [(settings_putEntry s entry).1]; omega)
    refine ⟨final, ?_⟩
    rw [List.foldl_cons, total]
    omega

/-- A prepared result that its store can take: current, free of panics, with distinct keys, good
images and room for them. -/
structure Admissible (s : Store) (p : Prepared) : Prop where
  nodup : (p.entries.map Prod.fst).Nodup
  calm : p.fault = false
  current : p.generation = s.generation
  good : GoodEntries p.entries
  fits : s.usedBytes + entriesCharge p.entries ≤
    s.config.maxDatasetBytes + heldAll s (p.entries.map Prod.fst)

/-- **Applying an admissible result keeps the store sound.** -/
theorem Admissible.sound (admissible : Admissible s p) (holds : Sound rest s) :
    Sound rest (s.apply p) ∧
      (s.apply p).usedBytes + heldAll s (p.entries.map Prod.fst) =
        s.usedBytes + entriesCharge p.entries := by
  have started : Sound rest (s.started p) :=
    ⟨holds.used, holds.quota, holds.good, holds.stamped,
      by simp [holds.sound, admissible.calm, admissible.current]⟩
  obtain ⟨dropped, used⟩ := foldl_dropKey_sound admissible.nodup started
  change _ + heldAll s (p.entries.map Prod.fst) = s.usedBytes at used
  have absent : ∀ entry ∈ p.entries,
      ((p.entries.map Prod.fst).foldl dropKey (s.started p)).image? entry.1 = none := by
    intro entry member
    rw [image?_foldl_dropKey, if_pos (List.mem_map.mpr ⟨entry, member, rfl⟩)]
  have config := (settings_foldl_dropKey (p.entries.map Prod.fst) (s.started p)).1
  change _ = s.config at config
  have fits := admissible.fits
  obtain ⟨sound, total⟩ := foldl_putEntry_sound admissible.nodup dropped admissible.good absent
    (by rw [config]; omega)
  refine ⟨sound, ?_⟩
  change (s.apply p).usedBytes = _ at total
  omega

theorem Admissible.valid (admissible : Admissible s p) (holds : s.Valid) : (s.apply p).Valid :=
  ⟨(admissible.sound holds.sound).1, apply_indexed holds.indexed p⟩

/-- A result with no entries, such as an error. -/
theorem admissible_nil (holds : Sound rest s) (entries : p.entries = []) (calm : p.fault = false)
    (current : p.generation = s.generation) : Admissible s p := by
  have names : p.entries.map Prod.fst = [] := by rw [entries]; rfl
  refine ⟨?_, calm, current, ?_, ?_⟩
  · rw [names]
    exact List.nodup_nil
  · rw [entries]
    exact nofun
  · rw [names, entries]
    exact Nat.add_le_add_right holds.quota 0

/-! ### A tentative store laid over the real one -/

theorem charged_eq_heldAll (nodup : keys.Nodup) (covers : ∀ key, key ∈ t.values → key ∈ keys) :
    t.charged = heldAll t keys := by
  induction keys generalizing t with
  | nil =>
    have empty : t.values = ∅ := by
      refine OrdMap.ext_get? fun key => OrdMap.get?_eq_none_iff.mpr fun member => ?_
      cases covers key member
    unfold charged
    rw [empty]
    rfl
  | cons key others ih =>
    obtain ⟨absent, tail⟩ := List.nodup_cons.mp nodup
    have rest := ih tail (t := t.removed key) fun probe member => by
      rw [removed_values, OrdMap.mem_erase] at member
      exact (List.mem_cons.mp (covers probe member.2)).resolve_left member.1
    have split : heldAll t (key :: others) = t.held key + heldAll t others := rfl
    have erased : (t.removed key).charged =
        (t.values.erase key).total fun key entry => entrySize key entry.value := by
      unfold charged
      rw [removed_values]
    rw [charged_erase t key, ← erased, rest, heldAll_removed absent, split]

theorem heldAll_filter (s : Store) (keys : List Bytes) (touched : Bytes → Bool) :
    heldAll s keys =
      heldAll s (keys.filter touched) + heldAll s (keys.filter fun key => !touched key) := by
  induction keys with
  | nil => rfl
  | cons key others ih =>
    have split : ∀ list, heldAll s (key :: list) = s.held key + heldAll s list := fun _ => rfl
    rw [split, ih]
    cases test : touched key with
    | true => rw [List.filter_cons_of_pos test, List.filter_cons_of_neg (by simp [test]), split]; omega
    | false =>
      rw [List.filter_cons_of_neg (by simp [test]), List.filter_cons_of_pos (by simp [test]), split]
      omega

theorem heldAll_congr (same : ∀ key ∈ keys, s.image? key = t.image? key) :
    heldAll s keys = heldAll t keys := by
  refine congrArg List.sum (List.map_congr_left fun key member => ?_)
  unfold held
  rw [same key member]

/-- The tentative images of some keys, as prepared entries. -/
def imagesOf (t : Store) (keys : List Bytes) : List (Bytes × Option Image) :=
  keys.map fun key => (key, t.image? key)

theorem imagesOf_keys (t : Store) (keys : List Bytes) : (t.imagesOf keys).map Prod.fst = keys := by
  unfold imagesOf
  rw [List.map_map]
  exact List.map_id keys

theorem find_imagesOf (t : Store) (keys : List Bytes) (probe : Bytes) :
    OrdMap.find (t.imagesOf keys) probe = if probe ∈ keys then some (t.image? probe) else none := by
  induction keys with
  | nil => rfl
  | cons key others ih =>
    show OrdMap.find ((key, t.image? key) :: t.imagesOf others) probe = _
    rw [OrdMap.find_cons, ih]
    by_cases here : probe = key
    · simp [here]
    · simp [here]

theorem mem_imagesOf {key : Bytes} {image : Image} (member : (key, some image) ∈ t.imagesOf keys) :
    t.image? key = some image := by
  obtain ⟨own, _, same⟩ := List.mem_map.mp member
  obtain ⟨rfl, found⟩ := Prod.mk.inj same
  exact found

theorem imagesOf_inherit (inherits : Inherits s t) (keys : List Bytes) :
    EntriesInherit s (t.imagesOf keys) :=
  fun key image collection member => inherits key image collection (mem_imagesOf member)

theorem entriesCharge_imagesOf (t : Store) (keys : List Bytes) :
    entriesCharge (t.imagesOf keys) = heldAll t keys := by
  unfold entriesCharge imagesOf heldAll
  rw [List.map_map]
  refine congrArg List.sum (List.map_congr_left fun key _ => ?_)
  unfold held
  show entryCharge (key, t.image? key) = _
  cases t.image? key <;> rfl

/-- A tentative store of some of the keys of `s`, charged for the rest of `s`. -/
structure Tentative (keys : List Bytes) (s t : Store) : Prop where
  nodup : keys.Nodup
  sound : Sound (s.usedBytes - heldAll s keys) t
  covers : ∀ key, key ∈ t.values → key ∈ keys
  config : t.config = s.config

/-- A prepared result whose entries are the keys on which a tentative store differs. -/
structure Overlay (keys : List Bytes) (touched : Bytes → Bool) (s t : Store) (p : Prepared) :
    Prop where
  tentative : Tentative keys s t
  calm : p.fault = false
  current : p.generation = s.generation
  entries : p.entries = t.imagesOf (keys.filter touched)
  untouched : ∀ key ∈ keys, touched key = false → t.image? key = s.image? key

section Overlays

variable {touched : Bytes → Bool} {t : Store}

variable (overlay : Overlay keys touched s t p)

include overlay

theorem Overlay.names : p.entries.map Prod.fst = keys.filter touched := by
  rw [overlay.entries, imagesOf_keys]

/-- The two byte counts differ only in the touched keys. -/
theorem Overlay.usedBytes (holds : Sound rest s) :
    s.usedBytes + entriesCharge p.entries = t.usedBytes + heldAll s (p.entries.map Prod.fst) := by
  have charge : entriesCharge p.entries = heldAll t (keys.filter touched) := by
    rw [overlay.entries, entriesCharge_imagesOf]
  have same : heldAll t (keys.filter fun key => !touched key) =
      heldAll s (keys.filter fun key => !touched key) :=
    heldAll_congr fun key member => by
      obtain ⟨own, test⟩ := List.mem_filter.mp member
      exact overlay.untouched key own (by simpa using test)
  have left := heldAll_filter s keys touched
  have right := heldAll_filter t keys touched
  have covered := (foldl_dropKey_sound overlay.tentative.nodup holds).2
  have used := overlay.tentative.sound.used
  rw [charged_eq_heldAll overlay.tentative.nodup overlay.tentative.covers] at used
  rw [overlay.names]
  omega

theorem Overlay.admissible (holds : Sound rest s) : Admissible s p := by
  refine ⟨?_, overlay.calm, overlay.current, fun entry member image same => ?_, ?_⟩
  · rw [overlay.names]
    exact overlay.tentative.nodup.filter _
  · rw [overlay.entries] at member
    obtain ⟨key, _, rfl⟩ := List.mem_map.mp member
    obtain ⟨stored, found, rfl⟩ := image?_eq_some.mp same
    exact overlay.tentative.sound.good key stored found
  · have quota := overlay.tentative.sound.quota
    rw [overlay.tentative.config] at quota
    have used := overlay.usedBytes holds
    omega

/-- **Applying an overlay lays the tentative store over the real one**, byte count included. -/
theorem Overlay.apply (holds : Sound rest s) :
    (s.apply p).usedBytes = t.usedBytes ∧
      ∀ key, (s.apply p).image? key = if key ∈ keys then t.image? key else s.image? key := by
  have admissible := overlay.admissible holds
  have used := overlay.usedBytes holds
  have total := (admissible.sound holds).2
  refine ⟨by omega, fun key => ?_⟩
  rw [image?_apply s p admissible.nodup, overlay.entries, find_imagesOf]
  by_cases own : key ∈ keys
  · rw [if_pos own]
    by_cases test : touched key = true
    · rw [if_pos (List.mem_filter.mpr ⟨own, test⟩)]
      rfl
    · rw [if_neg fun member => test (List.mem_filter.mp member).2]
      exact (overlay.untouched key own (by simpa using test)).symm
  · rw [if_neg fun member => own (List.mem_filter.mp member).1, if_neg own]
    rfl

end Overlays

end Store

end Sider
