/-
**What a watch token observes.**

A token that a registry tracks is raised exactly when its key is invalidated: `Raises touched r r'`
says that going from `r` to `r'` raises the tokens of the touched keys and no other. Applying a
prepared result touches the keys of its entries (`raises_apply`); watching raises nothing and returns
tracked tokens that are not raised (`watch_spec`).
-/

import Sider.Storage.Apply

namespace Sider

variable {cell : Nat} {state : WatchCell}

namespace Registry

variable {r : Registry} {key : Bytes} {token : WatchToken}

/-- Registered flags are distinct, not raised, and older than the next one. -/
structure Sane (r : Registry) : Prop where
  entries : ∀ key cell, r.entries.get? key = some cell → cell < r.next
  cells : ∀ cell state, r.cells.get? cell = some state → cell < r.next
  injective : ∀ key other cell, r.entries.get? key = some cell → r.entries.get? other = some cell →
    key = other
  calm : ∀ key cell state, r.entries.get? key = some cell → r.cells.get? cell = some state →
    state.changed = false

/-- The registry holds the flag of a token, registered under its key until it is raised. -/
structure Tracks (r : Registry) (token : WatchToken) : Prop where
  registry : token.registry = r.id
  present : (r.cells.get? token.cell).isSome
  registered : r.invalidated token = false → r.entries.get? token.key = some token.cell
  owner : ∀ key, r.entries.get? key = some token.cell → key = token.key

theorem sane_new (id : Nat) : Sane (new id) where
  entries := nofun
  cells := nofun
  injective := nofun
  calm := nofun

/-- Going from `r` to `r'` raises the tokens of the touched keys, and no other. -/
structure Raises (touched : Bytes → Prop) (r r' : Registry) : Prop where
  id : r'.id = r.id
  sane : r.Sane → r'.Sane
  tracks : ∀ token, r.Tracks token → r'.Tracks token
  invalidated : ∀ token, r.Tracks token →
    (r'.invalidated token = true ↔ r.invalidated token = true ∨ touched token.key)

theorem Raises.refl (r : Registry) : Raises (fun _ => False) r r where
  id := rfl
  sane := fun sane => sane
  tracks := fun _ tracks => tracks
  invalidated := fun _ _ => by simp

theorem Raises.trans {p q : Bytes → Prop} {r₁ r₂ r₃ : Registry} (first : Raises p r₁ r₂)
    (second : Raises q r₂ r₃) : Raises (fun key => p key ∨ q key) r₁ r₃ where
  id := second.id.trans first.id
  sane := fun sane => second.sane (first.sane sane)
  tracks := fun token tracks => second.tracks token (first.tracks token tracks)
  invalidated := fun token tracks => by
    rw [second.invalidated token (first.tracks token tracks), first.invalidated token tracks, or_assoc]

theorem Raises.congr {p q : Bytes → Prop} {r₁ r₂ : Registry} (raises : Raises p r₁ r₂)
    (same : ∀ key, p key ↔ q key) : Raises q r₁ r₂ where
  id := raises.id
  sane := raises.sane
  tracks := raises.tracks
  invalidated := fun token tracks => by rw [raises.invalidated token tracks, same]

/-! ### One operation of the registry -/

theorem upgrade_eq_some :
    r.upgrade key = some (cell, state) ↔
      r.entries.get? key = some cell ∧ r.cells.get? cell = some state := by
  unfold upgrade
  constructor
  · intro found
    obtain ⟨cell', entry, found⟩ := Option.bind_eq_some_iff.mp found
    obtain ⟨state', hit, same⟩ := Option.map_eq_some_iff.mp found
    cases same
    exact ⟨entry, hit⟩
  · rintro ⟨entry, hit⟩
    simp [entry, hit]

/-- A tracked token that is not raised is found under its key. -/
theorem Tracks.upgrade (tracks : r.Tracks token) (calm : r.invalidated token = false) :
    ∃ state, r.upgrade token.key = some (token.cell, state) := by
  obtain ⟨state, hit⟩ := Option.isSome_iff_exists.mp tracks.present
  exact ⟨state, upgrade_eq_some.mpr ⟨tracks.registered calm, hit⟩⟩

theorem invalidated_of_cell {r' : Registry} (same : r'.cells.get? token.cell = r.cells.get? token.cell) :
    r'.invalidated token = r.invalidated token := by
  unfold Registry.invalidated
  rw [same]

theorem sane_invalidate (sane : r.Sane) (key : Bytes) : (r.invalidate key).Sane := by
  have kept : ∀ probe cell, (r.entries.erase key).get? probe = some cell →
      probe ≠ key ∧ r.entries.get? probe = some cell := by
    intro probe cell found
    rw [OrdMap.get?_erase] at found
    split_ifs at found with same
    exact ⟨same, found⟩
  unfold invalidate
  cases up : r.upgrade key with
  | none =>
    exact ⟨fun probe cell found => sane.entries probe cell (kept probe cell found).2, sane.cells,
      fun probe other cell left right =>
        sane.injective probe other cell (kept _ _ left).2 (kept _ _ right).2,
      fun probe cell state found => sane.calm probe cell state (kept _ _ found).2⟩
  | some hit =>
    obtain ⟨cell, state⟩ := hit
    obtain ⟨entry, live⟩ := upgrade_eq_some.mp up
    refine ⟨fun probe other found => sane.entries probe other (kept _ _ found).2,
      fun other old found => ?_,
      fun probe other cell left right =>
        sane.injective probe other cell (kept _ _ left).2 (kept _ _ right).2,
      fun probe other old found stored => ?_⟩
    · rw [OrdMap.get?_insert] at found
      split_ifs at found with same
      · exact same ▸ sane.cells cell state live
      · exact sane.cells other old found
    · obtain ⟨different, found⟩ := kept _ _ found
      rw [OrdMap.get?_insert] at stored
      split_ifs at stored with same
      · exact absurd (sane.injective probe key cell (same ▸ found) entry) different
      · exact sane.calm probe other old found stored

/-- What invalidating a key does to one flag. -/
theorem get?_cells_invalidate (r : Registry) (key : Bytes) (cell : Nat) :
    (r.invalidate key).cells.get? cell =
      if r.entries.get? key = some cell then
        (r.cells.get? cell).map fun state => { state with changed := true }
      else r.cells.get? cell := by
  unfold invalidate
  cases up : r.upgrade key with
  | none =>
    split_ifs with entry
    · cases live : r.cells.get? cell with
      | none => rfl
      | some state =>
        rw [upgrade_eq_some.mpr ⟨entry, live⟩] at up
        cases up
    · rfl
  | some hit =>
    obtain ⟨own, state⟩ := hit
    obtain ⟨entry, live⟩ := upgrade_eq_some.mp up
    rw [OrdMap.get?_insert, entry]
    by_cases same : cell = own
    · rw [if_pos same, if_pos (by rw [same]), same, live]
      rfl
    · rw [if_neg same, if_neg (by simpa using Ne.symm same)]

theorem entries_invalidate (r : Registry) (key : Bytes) :
    (r.invalidate key).entries = r.entries.erase key := by
  unfold invalidate
  split <;> rfl

theorem id_invalidate (r : Registry) (key : Bytes) : (r.invalidate key).id = r.id := by
  unfold invalidate
  split <;> rfl

theorem raises_invalidate (r : Registry) (key : Bytes) :
    Raises (· = key) r (r.invalidate key) := by
  have flag : ∀ token, r.Tracks token →
      ((r.invalidate key).invalidated token = true ↔
        r.invalidated token = true ∨ token.key = key) := by
    intro token tracks
    have cell := get?_cells_invalidate r key token.cell
    obtain ⟨state, live⟩ := Option.isSome_iff_exists.mp tracks.present
    by_cases entry : r.entries.get? key = some token.cell
    · have own : token.key = key := (tracks.owner key entry).symm
      rw [if_pos entry, live] at cell
      unfold Registry.invalidated
      rw [cell]
      simp [own]
    · rw [if_neg entry] at cell
      rw [invalidated_of_cell cell]
      refine ⟨Or.inl, fun raised => raised.elim (fun h => h) fun own => ?_⟩
      by_contra calm
      exact entry (own ▸ tracks.registered (by simpa using calm))
  refine ⟨id_invalidate r key, fun sane => sane_invalidate sane key, fun token tracks => ?_, flag⟩
  have cell := get?_cells_invalidate r key token.cell
  refine ⟨tracks.registry.trans (id_invalidate r key).symm, ?_, fun calm => ?_, fun probe found => ?_⟩
  · rw [cell]
    split_ifs
    · rw [Option.isSome_map]
      exact tracks.present
    · exact tracks.present
  · have before : ¬(r.invalidated token = true ∨ token.key = key) := fun raised => by
      rw [(flag token tracks).mpr raised] at calm
      cases calm
    rw [entries_invalidate, OrdMap.get?_erase, if_neg fun own => before (.inr own)]
    exact tracks.registered (by simpa using fun raised => before (.inl raised))
  · rw [entries_invalidate, OrdMap.get?_erase] at found
    split_ifs at found
    exact tracks.owner probe found

/-- Changing only how many tokens hold each flag. -/
theorem raises_recount {cells : OrdMap Nat WatchCell}
    (flags : ∀ cell, (cells.get? cell).map WatchCell.changed =
      (r.cells.get? cell).map WatchCell.changed) :
    Raises (fun _ => False) r { r with cells := cells } := by
  have present : ∀ cell, (cells.get? cell).isSome = (r.cells.get? cell).isSome := fun cell => by
    have same := congrArg Option.isSome (flags cell)
    rwa [Option.isSome_map, Option.isSome_map] at same
  have raised : ∀ token : WatchToken,
      Registry.invalidated { r with cells := cells } token = r.invalidated token := by
    intro token
    have same := flags token.cell
    unfold Registry.invalidated
    cases left : cells.get? token.cell <;> cases right : r.cells.get? token.cell <;> simp_all
  refine ⟨rfl, fun sane => ⟨sane.entries, fun cell state found => ?_, sane.injective,
    fun probe cell state found stored => ?_⟩, fun token tracks => ?_, fun token _ => ?_⟩
  · have old : (r.cells.get? cell).isSome := by
      rw [← present]
      exact Option.isSome_iff_exists.mpr ⟨state, found⟩
    obtain ⟨before, hit⟩ := Option.isSome_iff_exists.mp old
    exact sane.cells cell before hit
  · have same := flags cell
    rw [stored] at same
    obtain ⟨before, hit, equal⟩ := Option.map_eq_some_iff.mp same.symm
    rw [← equal]
    exact sane.calm probe cell before found hit
  · refine ⟨tracks.registry, ?_, fun calm => ?_, tracks.owner⟩
    · rw [present]
      exact tracks.present
    · rw [raised] at calm
      exact tracks.registered calm
  · rw [raised]
    simp

/-- The registry with a fresh flag under `key`. -/
def withFlag (r : Registry) (key : Bytes) : Registry :=
  { r with
    entries := r.entries.insert key r.next
    cells := r.cells.insert r.next ⟨false, 1⟩
    next := r.next + 1 }

theorem get?_entries_withFlag {probe : Bytes}
    (found : (r.withFlag key).entries.get? probe = some cell) :
    (probe = key ∧ cell = r.next) ∨ (probe ≠ key ∧ r.entries.get? probe = some cell) := by
  change (r.entries.insert key r.next).get? probe = some cell at found
  rw [OrdMap.get?_insert] at found
  split_ifs at found with same
  · cases found
    exact .inl ⟨same, rfl⟩
  · exact .inr ⟨same, found⟩

theorem get?_cells_withFlag (found : (r.withFlag key).cells.get? cell = some state) :
    (cell = r.next ∧ state = ⟨false, 1⟩) ∨ (cell ≠ r.next ∧ r.cells.get? cell = some state) := by
  change (r.cells.insert r.next ⟨false, 1⟩).get? cell = some state at found
  rw [OrdMap.get?_insert] at found
  split_ifs at found with same
  · cases found
    exact .inl ⟨same, rfl⟩
  · exact .inr ⟨same, found⟩

theorem sane_withFlag (sane : r.Sane) (key : Bytes) : (r.withFlag key).Sane := by
  refine ⟨fun probe cell found => ?_, fun cell state found => ?_,
    fun probe other cell left right => ?_, fun probe cell state found stored => ?_⟩
  · show cell < r.next + 1
    rcases get?_entries_withFlag found with ⟨_, rfl⟩ | ⟨_, entry⟩
    · omega
    · exact (sane.entries probe cell entry).trans (by omega)
  · show cell < r.next + 1
    rcases get?_cells_withFlag found with ⟨rfl, _⟩ | ⟨_, hit⟩
    · omega
    · exact (sane.cells cell state hit).trans (by omega)
  · rcases get?_entries_withFlag left with ⟨own, fresh⟩ | ⟨_, first⟩ <;>
      rcases get?_entries_withFlag right with ⟨same, fresh'⟩ | ⟨_, second⟩
    · exact own.trans same.symm
    · exact absurd (sane.entries _ _ second) (by omega)
    · exact absurd (sane.entries _ _ first) (by omega)
    · exact sane.injective _ _ _ first second
  · rcases get?_cells_withFlag stored with ⟨_, rfl⟩ | ⟨old, hit⟩
    · rfl
    · rcases get?_entries_withFlag found with ⟨_, fresh⟩ | ⟨_, entry⟩
      · exact absurd fresh old
      · exact sane.calm probe cell state entry hit

/-- A fresh flag under a key with no live one raises nothing. -/
theorem raises_withFlag (sane : r.Sane) (missing : r.upgrade key = none) :
    Raises (fun _ => False) r (r.withFlag key) := by
  have cells : ∀ token : WatchToken, r.Tracks token →
      (r.withFlag key).cells.get? token.cell = r.cells.get? token.cell := by
    intro token tracks
    obtain ⟨state, hit⟩ := Option.isSome_iff_exists.mp tracks.present
    have older := sane.cells token.cell state hit
    exact OrdMap.get?_insert_of_ne r.cells _ (by omega)
  refine ⟨rfl, fun _ => sane_withFlag sane key, fun token tracks => ?_, fun token tracks => ?_⟩
  · refine ⟨tracks.registry, ?_, fun calm => ?_, fun probe found => ?_⟩
    · rw [cells token tracks]
      exact tracks.present
    · rw [invalidated_of_cell (cells token tracks)] at calm
      obtain ⟨state, live⟩ := tracks.upgrade calm
      have different : token.key ≠ key := fun same => by
        rw [same, missing] at live
        cases live
      exact (OrdMap.get?_insert_of_ne _ _ different).trans (tracks.registered calm)
    · rcases get?_entries_withFlag found with ⟨_, fresh⟩ | ⟨_, entry⟩
      · obtain ⟨state, hit⟩ := Option.isSome_iff_exists.mp tracks.present
        exact absurd (sane.cells token.cell state hit) (by omega)
      · exact tracks.owner probe entry
  · rw [invalidated_of_cell (cells token tracks)]
    simp

/-- **A token is taken**: it is tracked and calm, and no other token changes. -/
theorem token_spec (sane : r.Sane) (key : Bytes) (deadline : Option Nat) :
    (r.token key deadline).1.key = key ∧ (r.token key deadline).1.deadline = deadline ∧
      (r.token key deadline).2.Tracks (r.token key deadline).1 ∧
      (r.token key deadline).2.invalidated (r.token key deadline).1 = false ∧
      Raises (fun _ => False) r (r.token key deadline).2 := by
  unfold Registry.token
  cases up : r.upgrade key with
  | some hit =>
    obtain ⟨cell, state⟩ := hit
    obtain ⟨entry, live⟩ := upgrade_eq_some.mp up
    have own : (r.cells.insert cell { state with tokens := state.tokens + 1 }).get? cell =
        some { state with tokens := state.tokens + 1 } := OrdMap.get?_insert_self ..
    refine ⟨rfl, rfl, ⟨rfl, ?_, fun _ => entry, fun probe found => ?_⟩, ?_,
      raises_recount fun probe => ?_⟩
    · rw [own]
      rfl
    · exact sane.injective probe key cell found entry
    · show (OrdMap.get? _ cell).any _ = false
      rw [own]
      exact sane.calm key cell state entry live
    · rw [OrdMap.get?_insert]
      split_ifs with same
      · rw [same, live]
        rfl
      · rfl
  | none =>
    have own : (r.withFlag key).cells.get? r.next = some ⟨false, 1⟩ := OrdMap.get?_insert_self ..
    refine ⟨rfl, rfl, ⟨rfl, ?_, fun _ => OrdMap.get?_insert_self .., fun probe found => ?_⟩, ?_,
      raises_withFlag sane up⟩
    · show ((r.withFlag key).cells.get? r.next).isSome
      rw [own]
      rfl
    · rcases get?_entries_withFlag found with ⟨same, _⟩ | ⟨_, entry⟩
      · exact same
      · exact absurd (sane.entries probe r.next entry) (by omega)
    · show ((r.withFlag key).cells.get? r.next).any _ = false
      rw [own]
      rfl

end Registry

namespace Store

open Registry (Raises)

variable {s : Store}

/-! ### Application -/

/-- Removal of a key raises at most its own tokens. -/
theorem raises_removed (s : Store) (key : Bytes) :
    (s.removed key).watches = s.watches ∨ (s.removed key).watches = s.watches.invalidate key := by
  unfold removed
  split
  · exact .inl rfl
  · exact .inr rfl

/-- Invalidating a key and then removing it raises its tokens, whether it is present or not. -/
theorem raises_dropKey (s : Store) (key : Bytes) :
    Raises (· = key) s.watches (s.dropKey key).watches := by
  have first := Registry.raises_invalidate s.watches key
  unfold dropKey
  rcases raises_removed { s with watches := s.watches.invalidate key } key with same | same
  · rw [same]
    exact first
  · rw [same]
    exact (first.trans (Registry.raises_invalidate _ key)).congr fun _ => or_self_iff

theorem raises_putEntry (s : Store) (entry : Bytes × Option Image) :
    Raises (fun key => entry.2.isSome ∧ key = entry.1) s.watches (s.putEntry entry).watches := by
  obtain ⟨key, image⟩ := entry
  cases image with
  | none => exact (Raises.refl s.watches).congr fun _ => by simp
  | some image => exact (raises_dropKey s key).congr fun _ => by simp

theorem raises_foldl {ι : Type} {touched : ι → Bytes → Prop} {step : Store → ι → Store}
    (raises : ∀ t item, Raises (touched item) t.watches (step t item).watches) (items : List ι)
    (s : Store) : Raises (fun key => ∃ item ∈ items, touched item key) s.watches
      (items.foldl step s).watches := by
  induction items generalizing s with
  | nil => exact (Raises.refl s.watches).congr fun _ => by simp
  | cons item others ih => exact ((raises s item).trans (ih (step s item))).congr fun _ => by simp

/-- **Applying a prepared result raises the tokens of its keys**, and no other. -/
theorem raises_apply (s : Store) (p : Prepared) :
    Raises (· ∈ p.entries.map Prod.fst) s.watches (s.apply p).watches := by
  have drops := raises_foldl (fun t key => raises_dropKey t key) (p.entries.map Prod.fst) (s.started p)
  have puts := raises_foldl (fun t entry => raises_putEntry t entry) p.entries
    ((p.entries.map Prod.fst).foldl dropKey (s.started p))
  refine (drops.trans puts).congr fun key => ?_
  constructor
  · rintro (⟨own, member, rfl⟩ | ⟨entry, member, _, rfl⟩)
    · exact member
    · exact List.mem_map.mpr ⟨entry, member, rfl⟩
  · exact fun member => .inl ⟨key, member, rfl⟩

/-! ### Observation -/

/-- What watching some keys returns and leaves. -/
structure Watched (s : Store) (keys : List Bytes) (tokens : List WatchToken) (after : Store) :
    Prop where
  store : after = { s with watches := after.watches }
  keys : tokens.map WatchToken.key = keys
  deadlines : ∀ token ∈ tokens, token.deadline = s.watchDeadline token.key
  tracks : ∀ token ∈ tokens, after.watches.Tracks token
  calm : ∀ token ∈ tokens, after.watches.invalidated token = false
  raises : Raises (fun _ => False) s.watches after.watches

theorem watchDeadline_withWatches (s : Store) (registry : Registry) (key : Bytes) :
    watchDeadline { s with watches := registry } key = s.watchDeadline key := rfl

theorem watched_step (sane : s.watches.Sane) {keys : List Bytes} {tokens : List WatchToken}
    {after : Store} (watched : Watched s keys tokens after) (key : Bytes) :
    Watched s (keys ++ [key]) (watchKey (tokens, after) key).1 (watchKey (tokens, after) key).2 := by
  have spec := Registry.token_spec (watched.raises.sane sane) key (after.watchDeadline key)
  have deadlines : after.watchDeadline key = s.watchDeadline key := by
    rw [watched.store]
    exact watchDeadline_withWatches s _ key
  have shape : watchKey (tokens, after) key =
      (tokens ++ [(after.watches.token key (after.watchDeadline key)).1],
        { after with watches := (after.watches.token key (after.watchDeadline key)).2 }) := rfl
  rw [shape]
  generalize after.watches.token key (after.watchDeadline key) = taken at spec
  obtain ⟨token, registry⟩ := taken
  obtain ⟨name, deadline, tracks, calm, raises⟩ := spec
  have each : ∀ {motive : WatchToken → Prop}, (∀ old ∈ tokens, motive old) → motive token →
      ∀ any ∈ tokens ++ [token], motive any := by
    intro motive old fresh any member
    rcases List.mem_append.mp member with inside | last
    · exact old any inside
    · exact List.mem_singleton.mp last ▸ fresh
  refine ⟨?_, ?_, each watched.deadlines ?_, each (fun old member => ?_) tracks,
    each (fun old member => ?_) calm, (watched.raises.trans raises).congr fun _ => or_self_iff⟩
  · rw [watched.store]
  · rw [List.map_append, watched.keys]
    exact congrArg (keys ++ [·]) name
  · rw [name]
    exact deadline.trans deadlines
  · exact raises.tracks old (watched.tracks old member)
  · have same := raises.invalidated old (watched.tracks old member)
    rw [watched.calm old member] at same
    simpa using same

/-- **Watching returns one tracked, calm token per key** and raises nothing. -/
theorem watch_spec (sane : s.watches.Sane) (keys : List Bytes) :
    Watched s keys (s.watch keys).1 (s.watch keys).2 := by
  have all : ∀ (done more : List Bytes) (state : List WatchToken × Store),
      Watched s done state.1 state.2 →
      Watched s (done ++ more) (more.foldl watchKey state).1 (more.foldl watchKey state).2 := by
    intro done more
    induction more generalizing done with
    | nil =>
      intro state watched
      rw [List.append_nil]
      exact watched
    | cons key others ih =>
      intro state watched
      have next := ih (done ++ [key]) _ (watched_step sane watched key)
      rw [List.append_assoc] at next
      exact next
  exact all [] keys ([], s)
    ⟨rfl, rfl, fun _ => nofun, fun _ => nofun, fun _ => nofun, Raises.refl s.watches⟩

end Store

end Sider
