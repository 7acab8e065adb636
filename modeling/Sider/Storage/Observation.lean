/-
**Watch tokens over a whole run.**

A store is driven by clock readings, prepared batches, WATCH, dropped tokens and replacement as a
whole, and the tokens that connections hold are kept beside it (`Observed`). `Counted` ties the two:
every flag of the registry is held by as many tokens as it counts, so a flag outlives each of its
tokens. One step raises a held token exactly when it applies a batch that names its key
(`perform_raises`), hence so does a run (`run_raises`).

`watch_sound_complete` is the result for WATCH: a token is judged valid exactly when nothing it observes
has changed. A batch names what its commands rewrite, also with the value already there
(`set_names`), and inside an EXEC whatever the later commands undo (`exec_names`).
-/

import Mathlib.Data.List.Count
import Mathlib.Data.List.Induction
import Sider.Storage.MemoryEffect
import Sider.Storage.OneKey
import Sider.Storage.Worker

namespace Sider

open StateProgram StoreM

variable {key value : Bytes} {token other : WatchToken} {state : WatchCell} {command : Command}
  {p : Prepared} {s : Store}

/-! ### Dropping a token -/

namespace Registry

variable {r : Registry}

/-- The registry without the flag of its last token. -/
def released (r : Registry) (token : WatchToken) : Registry :=
  { r with
    entries :=
      if r.entries.get? token.key = some token.cell then r.entries.erase token.key else r.entries
    cells := r.cells.erase token.cell }

theorem drop_eq (live : r.cells.get? token.cell = some state) :
    r.drop token = if state.tokens = 1 then r.released token
      else { r with cells := r.cells.insert token.cell { state with tokens := state.tokens - 1 } } := by
  unfold drop
  rw [live]
  rfl

theorem get?_entries_released {cell : Nat} (found : (r.released token).entries.get? key = some cell) :
    r.entries.get? key = some cell := by
  change (if _ then _ else _ : OrdMap Bytes Nat).get? key = some cell at found
  split_ifs at found
  · rw [OrdMap.get?_erase] at found
    split_ifs at found
    exact found
  · exact found

theorem get?_cells_released {cell : Nat} (found : (r.released token).cells.get? cell = some state) :
    cell ≠ token.cell ∧ r.cells.get? cell = some state := by
  change (r.cells.erase token.cell).get? cell = some state at found
  rw [OrdMap.get?_erase] at found
  split_ifs at found with same
  exact ⟨same, found⟩

theorem sane_released (sane : r.Sane) (token : WatchToken) : (r.released token).Sane where
  entries := fun key cell found => sane.entries key cell (get?_entries_released found)
  cells := fun cell state found => sane.cells cell state (get?_cells_released found).2
  injective := fun key other cell left right =>
    sane.injective key other cell (get?_entries_released left) (get?_entries_released right)
  calm := fun key cell state found stored =>
    sane.calm key cell state (get?_entries_released found) (get?_cells_released stored).2

/-- Releasing a flag leaves the tokens of every other flag. -/
theorem tracks_released (tracks : r.Tracks other) (different : other.cell ≠ token.cell) :
    (r.released token).Tracks other ∧
      (r.released token).invalidated other = r.invalidated other := by
  have cell : (r.released token).cells.get? other.cell = r.cells.get? other.cell :=
    (OrdMap.get?_erase ..).trans (if_neg different)
  have flag := invalidated_of_cell cell
  refine ⟨⟨tracks.registry, ?_, fun calm => ?_, fun key found =>
    tracks.owner key (get?_entries_released found)⟩, flag⟩
  · rw [cell]
    exact tracks.present
  · have entry := tracks.registered (flag ▸ calm)
    show (if _ then _ else _ : OrdMap Bytes Nat).get? other.key = _
    split_ifs with own
    · have apart : other.key ≠ token.key := fun same => by
        rw [same, own] at entry
        exact different (Option.some.inj entry).symm
      rw [OrdMap.get?_erase, if_neg apart]
      exact entry
    · exact entry

/-- How many tokens hold a flag. -/
def holders (r : Registry) (cell : Nat) : Option Nat :=
  (r.cells.get? cell).map WatchCell.tokens

theorem holders_invalidate (r : Registry) (key : Bytes) (cell : Nat) :
    (r.invalidate key).holders cell = r.holders cell := by
  unfold holders
  rw [get?_cells_invalidate]
  split_ifs
  · rw [Option.map_map]
    rfl
  · rfl

/-- Taking a token adds one holder to its flag. -/
theorem holders_token (sane : r.Sane) (key : Bytes) (deadline : Option Nat) (cell : Nat) :
    ((r.token key deadline).2.holders cell).getD 0 =
      (r.holders cell).getD 0 + if (r.token key deadline).1.cell = cell then 1 else 0 := by
  have count : ∀ (own : Nat) (state : WatchCell) (before : Nat), (r.holders own).getD 0 = before →
      state.tokens = before + 1 →
      (((r.cells.insert own state).get? cell).map WatchCell.tokens).getD 0 =
        (r.holders cell).getD 0 + if own = cell then 1 else 0 := by
    intro own state before held more
    rw [OrdMap.get?_insert]
    by_cases same : cell = own
    · rw [if_pos same, if_pos same.symm, same, held]
      exact more
    · rw [if_neg same, if_neg (Ne.symm same)]
      rfl
  unfold Registry.token
  cases up : r.upgrade key with
  | some hit =>
    obtain ⟨own, state⟩ := hit
    refine count own { state with tokens := state.tokens + 1 } state.tokens ?_ rfl
    unfold holders
    rw [(upgrade_eq_some.mp up).2]
    rfl
  | none =>
    refine count r.next ⟨false, 1⟩ 0 ?_ rfl
    have fresh : r.cells.get? r.next = none := by
      cases live : r.cells.get? r.next with
      | none => rfl
      | some state => exact absurd (sane.cells r.next state live) (lt_irrefl _)
    unfold holders
    rw [fresh]
    rfl

/-- Dropping a token takes one holder from its flag. -/
theorem holders_drop (tracks : r.Tracks token) (cell : Nat) :
    ((r.drop token).holders cell).getD 0 =
      (r.holders cell).getD 0 - if token.cell = cell then 1 else 0 := by
  obtain ⟨state, live⟩ := Option.isSome_iff_exists.mp tracks.present
  rw [drop_eq live]
  unfold holders
  by_cases same : cell = token.cell
  · rw [if_pos same.symm, same, live]
    split_ifs with last
    · show (((r.cells.erase token.cell).get? token.cell).map WatchCell.tokens).getD 0 = state.tokens - 1
      rw [OrdMap.get?_erase, if_pos rfl, last]
      rfl
    · rw [OrdMap.get?_insert_self]
      rfl
  · rw [if_neg (Ne.symm same), Nat.sub_zero]
    split_ifs with last
    · show (((r.cells.erase token.cell).get? cell).map WatchCell.tokens).getD 0 = _
      rw [OrdMap.get?_erase, if_neg same]
    · rw [OrdMap.get?_insert, if_neg same]

/-- **A token is dropped**: the tokens of other flags, and of a flag with more holders, stay. -/
theorem drop_spec (sane : r.Sane) (tracks : r.Tracks token) :
    (r.drop token).id = r.id ∧ (r.drop token).Sane ∧
      ∀ other, r.Tracks other → other.cell ≠ token.cell ∨ r.holders token.cell ≠ some 1 →
        (r.drop token).Tracks other ∧ (r.drop token).invalidated other = r.invalidated other := by
  obtain ⟨state, live⟩ := Option.isSome_iff_exists.mp tracks.present
  have count : r.holders token.cell = some state.tokens := by
    unfold holders
    rw [live]
    rfl
  rw [drop_eq live, count]
  split_ifs with last
  · refine ⟨rfl, sane_released sane token, fun other tracked kept => tracks_released tracked ?_⟩
    exact kept.resolve_right fun more => more (congrArg some last)
  · have recount : Raises (fun _ => False) r
        { r with cells := r.cells.insert token.cell { state with tokens := state.tokens - 1 } } :=
      raises_recount fun cell => by
        rw [OrdMap.get?_insert]
        split_ifs with same
        · rw [same, live]
          rfl
        · rfl
    refine ⟨rfl, recount.sane sane, fun other tracked _ => ⟨recount.tracks other tracked, ?_⟩⟩
    have same := recount.invalidated other tracked
    rw [or_false] at same
    exact Bool.eq_iff_iff.mpr same

end Registry

namespace Store

/-- The registry after invalidating some keys, one after another. -/
def Invalidates (s after : Store) : Prop :=
  ∃ keys : List Bytes, after.watches = keys.foldl Registry.invalidate s.watches

theorem Invalidates.refl (s : Store) : Invalidates s s := ⟨[], rfl⟩

theorem Invalidates.trans {middle after : Store} (first : Invalidates s middle)
    (second : Invalidates middle after) : Invalidates s after := by
  obtain ⟨early, first⟩ := first
  obtain ⟨late, second⟩ := second
  exact ⟨early ++ late, by rw [second, first, List.foldl_append]⟩

theorem invalidates_foldl {ι : Type} {step : Store → ι → Store}
    (each : ∀ t item, Invalidates t (step t item)) (items : List ι) (s : Store) :
    Invalidates s (items.foldl step s) := by
  induction items generalizing s with
  | nil => exact Invalidates.refl s
  | cons item others ih => exact (each s item).trans (ih (step s item))

theorem invalidates_dropKey (s : Store) (key : Bytes) : Invalidates s (s.dropKey key) := by
  rcases raises_removed { s with watches := s.watches.invalidate key } key with same | same
  · exact ⟨[key], same⟩
  · exact ⟨[key, key], same⟩

theorem invalidates_putEntry (s : Store) (entry : Bytes × Option Image) :
    Invalidates s (s.putEntry entry) := by
  obtain ⟨key, image⟩ := entry
  cases image with
  | none => exact Invalidates.refl s
  | some image => exact invalidates_dropKey s key

theorem invalidates_apply (s : Store) (p : Prepared) : Invalidates s (s.apply p) := by
  have drops := invalidates_foldl invalidates_dropKey (p.entries.map Prod.fst) (s.started p)
  exact drops.trans (invalidates_foldl invalidates_putEntry p.entries _)

/-- Applying a batch drops no token. -/
theorem holders_apply (s : Store) (p : Prepared) (cell : Nat) :
    (s.apply p).watches.holders cell = s.watches.holders cell := by
  obtain ⟨keys, same⟩ := invalidates_apply s p
  rw [same]
  clear same
  generalize s.watches = r
  induction keys generalizing r with
  | nil => rfl
  | cons key others ih => exact (ih _).trans (Registry.holders_invalidate r key cell)

end Store

/-- The batch has a mutation of the key. -/
def ResolvedBatch.names (batch : ResolvedBatch) (key : Bytes) : Prop :=
  key ∈ batch.mutations.map Mutation.key

instance (batch : ResolvedBatch) (key : Bytes) : Decidable (batch.names key) :=
  inferInstanceAs (Decidable (_ ∈ _))

/-! ### A store and the tokens taken on it -/

/-- A store, the tokens connections hold, and how many registries have been made. -/
structure Observed where
  store : Store
  held : List WatchToken
  registries : Nat

variable {o : Observed}

namespace Observed

/-- What can happen to a store and its tokens. -/
inductive Event where
  | tick (clock : Clock)
  | request (request : Request)
  /-- An owner's part of a batch prepared together with other owners. -/
  | install (entries : List (Bytes × Option Image)) (origin : MutationOrigin)
  | watch (keys : List Bytes)
  | drop (token : WatchToken)
  /-- A replica installs a snapshot: another store, with a registry of its own. -/
  | replace (store : Store)

def Event.replaces : Event → Bool
  | replace _ => true
  | _ => false

/-- A new store. -/
def start (config : StoreConfig) (clock : Clock) : Observed :=
  ⟨.withConfig config clock 0, [], 1⟩

/-- The batch an event applies. -/
def batch? (o : Observed) : Event → Option Prepared
  | .request request => o.store.preparation request
  | .install entries origin => some (o.store.prepared .ok entries origin false)
  | _ => none

def perform (o : Observed) (event : Event) : Observed :=
  match event with
  | .tick clock => { o with store := o.store.atClock clock }
  | .request _ | .install .. =>
    match o.batch? event with
    | some p => { o with store := o.store.apply p }
    | none => o
  | .watch keys =>
    { o with store := (o.store.watch keys).2, held := o.held ++ (o.store.watch keys).1 }
  | .drop token =>
    if token ∈ o.held then
      { o with
        store :=
          -- a token of an older registry is dropped there
          if token.registry = o.store.watches.id then
            { o.store with watches := o.store.watches.drop token }
          else o.store
        held := o.held.erase token }
    else o
  | .replace store =>
    { o with
      store := { store with watches := Registry.new o.registries }
      registries := o.registries + 1 }

def run (o : Observed) (events : List Event) : Observed :=
  events.foldl perform o

/-- The batches a run applies, in order. -/
def applied (o : Observed) : List Event → List ResolvedBatch
  | [] => []
  | event :: events =>
    ((o.batch? event).map Prepared.batch).toList ++ (o.perform event).applied events

/-- The tokens of one flag. -/
def ofCell (id cell : Nat) (token : WatchToken) : Bool :=
  token.registry = id && token.cell = cell

/-- Registries are numbered as they are made, and the current one counts its tokens. -/
structure Counted (o : Observed) : Prop where
  current : o.store.watches.id < o.registries
  made : ∀ token ∈ o.held, token.registry < o.registries
  sane : o.store.watches.Sane
  tracks : ∀ token ∈ o.held, token.registry = o.store.watches.id → o.store.watches.Tracks token
  holders : ∀ cell, (o.store.watches.holders cell).getD 0 =
    o.held.countP (ofCell o.store.watches.id cell)

theorem counted_start (config : StoreConfig) (clock : Clock) : Counted (start config clock) where
  current := Nat.zero_lt_one
  made := nofun
  sane := Registry.sane_new 0
  tracks := nofun
  holders := fun _ => rfl

/-- WATCH adds one holder for each token it returns. -/
theorem holders_watch (sane : s.watches.Sane) (keys : List Bytes) (cell : Nat) :
    ((s.watch keys).2.watches.holders cell).getD 0 =
      (s.watches.holders cell).getD 0 + (s.watch keys).1.countP (ofCell s.watches.id cell) := by
  induction keys using List.reverseRecOn with
  | nil => rfl
  | append_singleton keys key ih =>
    have raises := (Store.watch_spec sane keys).raises
    have unfolded : s.watch (keys ++ [key]) = Store.watchKey (s.watch keys) key :=
      List.foldl_append ..
    rw [unfolded]
    generalize s.watch keys = state at ih raises
    obtain ⟨tokens, after⟩ := state
    have spec := Registry.token_spec (raises.sane sane) key (after.watchDeadline key)
    have count := Registry.holders_token (raises.sane sane) key (after.watchDeadline key) cell
    have name := spec.2.2.1.registry.trans (spec.2.2.2.2.id.trans raises.id)
    show (((after.watches.token key (after.watchDeadline key)).2).holders cell).getD 0 =
      _ + (tokens ++ [(after.watches.token key (after.watchDeadline key)).1]).countP _
    rw [count, ih, List.countP_append, List.countP_singleton, Nat.add_assoc]
    unfold ofCell
    rw [name]
    simp

section

variable (counted : o.Counted)

include counted

/-- A step on the current registry keeps the counts when it raises tokens and counts holders. -/
theorem Counted.raise {touched : Bytes → Prop} {store : Store} {fresh : List WatchToken}
    (raises : Registry.Raises touched o.store.watches store.watches)
    (tracks : ∀ token ∈ fresh, store.watches.Tracks token)
    (holders : ∀ cell, (store.watches.holders cell).getD 0 =
      (o.store.watches.holders cell).getD 0 + fresh.countP (ofCell o.store.watches.id cell)) :
    Counted { o with store := store, held := o.held ++ fresh } where
  current := raises.id ▸ counted.current
  made := fun token member => by
    rcases List.mem_append.mp member with old | new
    · exact counted.made token old
    · rw [(tracks token new).registry, raises.id]
      exact counted.current
  sane := raises.sane counted.sane
  tracks := fun token member same => by
    rcases List.mem_append.mp member with old | new
    · exact raises.tracks token (counted.tracks token old (same.trans raises.id))
    · exact tracks token new
  holders := fun cell => by
    rw [holders cell, counted.holders cell, List.countP_append, raises.id]

theorem Counted.apply (p : Prepared) : Counted { o with store := o.store.apply p } := by
  have step : Counted { o with store := o.store.apply p, held := o.held ++ [] } :=
    counted.raise (Store.raises_apply o.store p) (fun _ => nofun) fun cell => by
      rw [Store.holders_apply, List.countP_nil, Nat.add_zero]
  rwa [List.append_nil] at step

theorem Counted.watch (keys : List Bytes) : Counted (o.perform (.watch keys)) :=
  counted.raise (Store.watch_spec counted.sane keys).raises
    (Store.watch_spec counted.sane keys).tracks (holders_watch counted.sane keys)

/-- A held token whose flag has one holder is the only one of that flag. -/
theorem Counted.alone (member : token ∈ o.held) (own : token.registry = o.store.watches.id)
    (inside : other ∈ o.held.erase token) (same : other.registry = o.store.watches.id) :
    other.cell ≠ token.cell ∨ o.store.watches.holders token.cell ≠ some 1 := by
  by_contra both
  rw [not_or, not_ne_iff, not_ne_iff] at both
  obtain ⟨cell, single⟩ := both
  have count := counted.holders token.cell
  rw [single, Option.getD_some] at count
  have erased := List.countP_erase (ofCell o.store.watches.id token.cell) o.held token
  rw [if_pos ⟨member, by simp [ofCell, own]⟩, ← count] at erased
  exact List.countP_eq_zero.mp erased other inside (by simp [ofCell, same, cell])

theorem Counted.drop (token : WatchToken) : Counted (o.perform (.drop token)) := by
  show Counted (if token ∈ o.held then _ else o)
  split_ifs with member own
  · have tracked := counted.tracks token member own
    obtain ⟨name, sane, others⟩ := Registry.drop_spec counted.sane tracked
    refine ⟨name ▸ counted.current, fun other inside => counted.made other (List.mem_of_mem_erase inside),
      sane, fun other inside same => ?_, fun cell => ?_⟩
    · have same := same.trans name
      exact (others other (counted.tracks other (List.mem_of_mem_erase inside) same)
        (counted.alone member own inside same)).1
    · rw [Registry.holders_drop tracked, counted.holders cell, List.countP_erase, name]
      simp [ofCell, own, member]
  · refine ⟨counted.current, fun other inside => counted.made other (List.mem_of_mem_erase inside),
      counted.sane, fun other inside => counted.tracks other (List.mem_of_mem_erase inside),
      fun cell => ?_⟩
    rw [counted.holders cell, List.countP_erase]
    simp [ofCell, own]
  · exact counted

theorem Counted.replace (store : Store) :
    Counted (o.perform (.replace store)) where
  current := Nat.lt_succ_self _
  made := fun token member => (counted.made token member).trans (Nat.lt_succ_self _)
  sane := Registry.sane_new _
  tracks := fun token member same => absurd (counted.made token member) (by
    change token.registry = o.registries at same
    omega)
  holders := fun cell => by
    show 0 = o.held.countP (ofCell o.registries cell)
    refine (List.countP_eq_zero.mpr fun token member own => ?_).symm
    have older := counted.made token member
    simp only [ofCell, Bool.and_eq_true, decide_eq_true_eq] at own
    omega

end

variable {event : Event}

/-- An event other than WATCH, a drop or a replacement applies at most a batch. -/
theorem perform_batch (o : Observed) (found : o.batch? event = some p) :
    o.perform event = { o with store := o.store.apply p } := by
  cases event with
  | request request =>
    show (match o.batch? (.request request) with | some p => _ | none => _) = _
    rw [found]
  | install entries origin =>
    cases found
    rfl
  | _ => cases found

theorem perform_refused (o : Observed) {request : Request}
    (refused : o.batch? (.request request) = none) : o.perform (.request request) = o := by
  show (match o.batch? (.request request) with | some p => _ | none => _) = _
  rw [refused]

/-- **One step keeps the counts.** -/
theorem perform_counted (counted : o.Counted) (event : Event) : (o.perform event).Counted := by
  cases found : o.batch? event with
  | some p =>
    rw [perform_batch o found]
    exact counted.apply p
  | none =>
    cases event with
    | tick clock => exact ⟨counted.current, counted.made, counted.sane, counted.tracks, counted.holders⟩
    | request request =>
      rw [perform_refused o found]
      exact counted
    | install entries origin => cases found
    | watch keys => exact counted.watch keys
    | drop token => exact counted.drop token
    | replace store => exact counted.replace store

theorem run_counted (counted : o.Counted) (events : List Event) : (o.run events).Counted := by
  induction events generalizing o with
  | nil => exact counted
  | cons event others ih => exact ih (perform_counted counted event)

/-! ### What raises a held token -/

theorem batch_keys (o : Observed) (found : o.batch? event = some p) :
    p.batch.mutations.map Mutation.key = p.entries.map Prod.fst := by
  cases event with
  | request request => rw [Store.preparation_mutations found, Store.mutations_keys]
  | install entries origin =>
    cases found
    exact Store.mutations_keys entries
  | _ => cases found

/-- **One step raises a held token exactly when it applies a batch that names its key.** -/
theorem perform_raises (counted : o.Counted) (whole : event.replaces = false)
    (member : token ∈ o.held) (own : token.registry = o.store.watches.id)
    (kept : token ∈ (o.perform event).held) :
    (o.perform event).store.watches.id = o.store.watches.id ∧
      ((o.perform event).store.watches.invalidated token = true ↔
        o.store.watches.invalidated token = true ∨
          ∃ p, o.batch? event = some p ∧ p.batch.names token.key) := by
  have tracked := counted.tracks token member own
  cases found : o.batch? event with
  | some p =>
    rw [perform_batch o found]
    have raises := Store.raises_apply o.store p
    refine ⟨raises.id, (raises.invalidated token tracked).trans ?_⟩
    simp only [Option.some.injEq, exists_eq_left', ResolvedBatch.names, batch_keys o found]
  | none =>
    simp only [reduceCtorEq, false_and, exists_false, or_false]
    cases event with
    | tick clock => exact ⟨rfl, Iff.rfl⟩
    | request request =>
      rw [perform_refused o found]
      exact ⟨rfl, Iff.rfl⟩
    | install entries origin => cases found
    | watch keys =>
      have raises := (Store.watch_spec counted.sane keys).raises
      exact ⟨raises.id, (raises.invalidated token tracked).trans (iff_of_eq (or_false _))⟩
    | drop other =>
      change token ∈ (if other ∈ o.held then _ else o : Observed).held at kept
      show (if other ∈ o.held then _ else o : Observed).store.watches.id = _ ∧
        ((if other ∈ o.held then _ else o : Observed).store.watches.invalidated token = true ↔ _)
      split_ifs at kept ⊢ with inside foreign
      · have dropped := counted.tracks other inside foreign
        obtain ⟨name, _, others⟩ := Registry.drop_spec counted.sane dropped
        have same := (others token tracked (counted.alone inside foreign kept own)).2
        exact ⟨name, by rw [← same]⟩
      · exact ⟨rfl, Iff.rfl⟩
      · exact ⟨rfl, Iff.rfl⟩
    | replace store => cases whole

/-- **A run raises a held token exactly when one of its batches names its key.** -/
theorem run_raises {events : List Event} (counted : o.Counted)
    (whole : ∀ event ∈ events, event.replaces = false)
    (own : token.registry = o.store.watches.id)
    (kept : ∀ done, done <+: events → token ∈ (o.run done).held) :
    (o.run events).store.watches.id = o.store.watches.id ∧
      ((o.run events).store.watches.invalidated token = true ↔
        o.store.watches.invalidated token = true ∨
          ∃ batch ∈ o.applied events, batch.names token.key) := by
  induction events generalizing o with
  | nil => exact ⟨rfl, by simp [applied, run]⟩
  | cons event others ih =>
    have first : token ∈ (o.perform event).held :=
      kept [event] ((List.prefix_cons_inj event).mpr List.nil_prefix)
    obtain ⟨name, flag⟩ := perform_raises counted (whole event List.mem_cons_self)
      (kept [] List.nil_prefix) own first
    obtain ⟨names, flags⟩ := ih (perform_counted counted event)
      (fun other member => whole other (List.mem_cons_of_mem _ member)) (own.trans name.symm)
      fun done before => kept (event :: done) ((List.prefix_cons_inj event).mpr before)
    refine ⟨names.trans name, flags.trans ?_⟩
    rw [flag, or_assoc]
    refine or_congr_right ?_
    show _ ↔ ∃ batch ∈ ((o.batch? event).map Prepared.batch).toList ++ _, _
    cases o.batch? event <;> simp

/-- Registries only get younger. -/
theorem perform_younger (counted : o.Counted) (event : Event) :
    o.store.watches.id ≤ (o.perform event).store.watches.id ∧
      o.registries ≤ (o.perform event).registries ∧
      (event.replaces = true → o.registries ≤ (o.perform event).store.watches.id) := by
  cases found : o.batch? event with
  | some p =>
    rw [perform_batch o found]
    refine ⟨(Store.raises_apply o.store p).id.ge, le_refl _, fun replaces => ?_⟩
    cases event with
    | replace store => cases found
    | _ => cases replaces
  | none =>
    cases event with
    | tick clock => exact ⟨le_refl _, le_refl _, nofun⟩
    | request request =>
      rw [perform_refused o found]
      exact ⟨le_refl _, le_refl _, nofun⟩
    | install entries origin => cases found
    | watch keys =>
      exact ⟨(Store.watch_spec counted.sane keys).raises.id.ge, le_refl _, nofun⟩
    | drop other =>
      show _ ≤ (if other ∈ o.held then _ else o : Observed).store.watches.id ∧
        _ ≤ (if other ∈ o.held then _ else o : Observed).registries ∧ _
      split_ifs with inside own
      · exact ⟨(Registry.drop_spec counted.sane (counted.tracks other inside own)).1.ge, le_refl _,
          nofun⟩
      · exact ⟨le_refl _, le_refl _, nofun⟩
      · exact ⟨le_refl _, le_refl _, nofun⟩
    | replace store => exact ⟨counted.current.le, Nat.le_succ _, fun _ => le_refl _⟩

theorem run_younger (counted : o.Counted) (events : List Event) :
    o.store.watches.id ≤ (o.run events).store.watches.id ∧
      ((∃ event ∈ events, event.replaces = true) →
        o.registries ≤ (o.run events).store.watches.id) := by
  induction events generalizing o with
  | nil => exact ⟨le_refl _, nofun⟩
  | cons event others ih =>
    obtain ⟨younger, more, replaced⟩ := perform_younger counted event
    obtain ⟨later, never⟩ := ih (perform_counted counted event)
    refine ⟨younger.trans later, ?_⟩
    rintro ⟨other, member, replaces⟩
    rcases List.mem_cons.mp member with rfl | inside
    · exact (replaced replaces).trans later
    · exact more.trans (never ⟨other, inside, replaces⟩)

end Observed

/-! ### What a batch names -/

namespace Store

variable {rest : Nat}

/-- A value that is written back carries a stamp of its own. -/
theorem storeWithinQuota_rewrites (holds : Sound rest s) (key : Bytes) {value : Value}
    (other : value.asMemory = none) (expiry : Option (Nat × Int)) (reply : Reply) :
    Triple (fun t => s.generation ≤ t.generation) (storeWithinQuota key value expiry reply)
      fun result t => result = .ok → rewritten s t key := by
  intro t later
  rw [run_storeWithinQuota]
  split_ifs
  · intro _ same
    have resolved : t.resolveMemberDeadlines key value = .ok ∅ := by
      cases value <;> first | rfl | cases other
    have fresh : s.restamped (t.installEntry key
        ⟨value, expiry.map Prod.fst, expiry.map Prod.snd, ∅⟩) key = true :=
      restamped_installEntry holds later _
    change (t.inserted key value expiry).values.get? key = s.values.get? key at same
    unfold inserted at same
    rw [resolved] at same
    exact of_decide_eq_true fresh (congrArg (Option.map Entry.generation) same.symm)
  · exact nofun

theorem generation_le_purge (s : Store) (now : Nat) (key : Bytes) :
    s.generation ≤ (s.purge now key).generation := by
  unfold purge
  split_ifs
  · exact generation_le_removed s key
  · exact le_refl _

/-- SET that answers OK wrote the key, whatever it held before. -/
theorem set_rewrites (holds : Sound rest s) (key value : Bytes) (options : SetOptions) (now : Nat) :
    Triple (· = s) (Sider.set key value options now) fun result t =>
      result = .ok → rewritten s t key := by
  have read : Triple (· = s) StoreM.clock fun _ t => t = s := fun _ same => same
  refine Triple.bind read fun clock => ?_
  split
  · exact Triple.pure fun _ _ => nofun
  · have purged : Triple (· = s) (expireKey key now) fun _ t => s.generation ≤ t.generation := by
      rintro _ rfl
      rw [run_purge]
      exact generation_le_purge _ now key
    have looked : Triple (fun t => s.generation ≤ t.generation) (lookup key)
        fun _ t => s.generation ≤ t.generation := fun _ later => later
    refine Triple.bind purged fun _ => Triple.bind looked fun previous => ?_
    split_ifs
    all_goals first
      | exact Triple.pure fun _ _ => nofun
      | exact storeWithinQuota_rewrites holds key rfl _ _

/-- SET or SET with options, of a key and a value. -/
def IsSet (key value : Bytes) (command : Command) : Prop :=
  command = .set key value ∨ ∃ options, command = .setWithOptions key value options

/-- **A SET that answers OK names its key**, also when it rewrites the value already there. -/
theorem set_names (holds : Sound rest s) (sets : IsSet key value command)
    (answered : (s.prepare command).reply = .ok) : (s.prepare command).batch.names key := by
  have ordinary : command.isMemory = false := by
    rcases sets with rfl | ⟨options, rfl⟩ <;> rfl
  have names : (s.prepare command).batch.mutations.map Mutation.key =
      (s.prepare command).entries.map Prod.fst := by
    rw [prepare_eq s ordinary]
    exact mutations_keys _
  have direct : ((executeInner command).run s).1 = .ok := by
    rw [prepare_eq s ordinary] at answered
    exact (prepare_twin holds command).1.symm.trans answered
  unfold ResolvedBatch.names
  rw [names, mem_prepare_keys holds ordinary]
  rcases sets with rfl | ⟨options, rfl⟩
  · exact set_rewrites holds key value {} s.clock.now s rfl direct
  · exact set_rewrites holds key value options s.clock.now s rfl direct

/-- A SET that answered OK inside an EXEC leaves its key in the batch, also if a later command of the
same EXEC deletes it again. -/
theorem exec_names (holds : s.Valid) {done later : List Command}
    (ordinary : ∀ queued ∈ done ++ command :: later, queued.isMemory = false) (time : Clock)
    (sets : IsSet key value command)
    (answered : ((executeQueued command).run (sequential (s.atClock time) done).1).1 = .ok) :
    (s.prepareBatchAt (done ++ command :: later) time).batch.names key := by
  obtain ⟨_, _, _, _, names, _⟩ := prepareBatchAt_eq_sequential s holds _ ordinary time
  have sound := sequential_sound (holds.sound.atClock time) done
  refine (names key).mpr ⟨done, command, later, rfl, ?_⟩
  rw [sequential_append]
  generalize sequential (s.atClock time) done = state at sound answered
  rcases sets with rfl | ⟨options, rfl⟩
  · exact set_rewrites sound key value {} state.1.clock.now state.1 rfl answered
  · exact set_rewrites sound key value options state.1.clock.now state.1 rfl answered

end Store

/-! ### Deadlines -/

namespace Observed

/-- When a token taken in some state of a run is valid later. -/
theorem taken_valid_iff (counted : o.Counted) {keys : List Bytes} (now : Nat)
    (taken : token ∈ (o.store.watch keys).1) {after : List Event}
    (kept : ∀ done, done <+: after → token ∈ ((o.perform (.watch keys)).run done).held) :
    ((o.perform (.watch keys)).run after).store.watchesValidAt [token] now = true ↔
      (∀ event ∈ after, event.replaces = false) ∧
        (∀ batch ∈ (o.perform (.watch keys)).applied after, ¬batch.names token.key) ∧
        ∀ image, o.store.image? token.key = some image →
          image.Outlives o.store.clock.now now := by
  have watched := Store.watch_spec counted.sane keys
  have tracked := watched.tracks token taken
  have observed := counted.watch keys
  have valid : ((o.perform (.watch keys)).run after).store.watchesValidAt [token] now = true ↔
      ((o.perform (.watch keys)).run after).store.watches.id = token.registry ∧
        ((o.perform (.watch keys)).run after).store.watches.invalidated token = false ∧
        token.deadline.all (now < ·) = true := by
    unfold Store.watchesValidAt Registry.changed
    cases pending : token.deadline <;> simp [pending]
  rw [valid, ← Store.watchDeadline_outlives, ← watched.deadlines token taken, ← and_assoc, ← and_assoc]
  refine and_congr_left fun _ => ?_
  by_cases whole : ∀ event ∈ after, event.replaces = false
  · obtain ⟨name, flag⟩ := run_raises observed whole tracked.registry kept
    have calm : (o.perform (.watch keys)).store.watches.invalidated token = false :=
      watched.calm token taken
    rw [calm, or_iff_right Bool.false_ne_true] at flag
    refine and_congr (iff_of_true (name.trans tracked.registry.symm) whole) ?_
    rw [← Bool.not_eq_true, flag]
    push Not
    exact Iff.rfl
  · have replaced : ∃ event ∈ after, event.replaces = true := by
      push Not at whole
      simpa using whole
    have younger := (run_younger observed after).2 replaced
    have older : token.registry < (o.perform (.watch keys)).registries :=
      tracked.registry ▸ observed.current
    refine iff_of_false (fun both => ?_) fun both => whole both.1
    omega

/-- **WATCH is sound and complete.** In every run of a store, a token that WATCH returned and that is
still held is judged valid at `now` exactly when the store was not replaced as a whole since, no batch
naming the key was applied since, and neither the deadline of the key nor one of a member that was live
then has passed. A SET that answers OK names its key whatever value it held; and it does so inside an
EXEC whatever the later commands of the EXEC do to the key. -/
theorem watch_sound_complete (config : StoreConfig) (clock : Clock) (before after : List Event)
    (keys : List Bytes) (token : WatchToken) (now : Nat)
    (taken : token ∈ (((start config clock).run before).store.watch keys).1)
    (kept : ∀ done, done <+: after →
      token ∈ ((((start config clock).run before).perform (.watch keys)).run done).held) :
    ((((((start config clock).run before).perform (.watch keys)).run after).store.watchesValidAt
        [token] now = true) ↔
      (∀ event ∈ after, event.replaces = false) ∧
        (∀ batch ∈ (((start config clock).run before).perform (.watch keys)).applied after,
          ¬batch.names token.key) ∧
        ∀ image, ((start config clock).run before).store.image? token.key = some image →
          image.Outlives ((start config clock).run before).store.clock.now now) ∧
      (∀ (s : Store) (key value : Bytes) (command : Command), s.Valid →
        Store.IsSet key value command → (s.prepare command).reply = .ok →
        (s.prepare command).batch.names key) ∧
      ∀ (s : Store) (done later : List Command) (command : Command) (time : Clock)
        (key value : Bytes), s.Valid →
        (∀ queued ∈ done ++ command :: later, queued.isMemory = false) →
        Store.IsSet key value command →
        ((executeQueued command).run (sequential (s.atClock time) done).1).1 = .ok →
        (s.prepareBatchAt (done ++ command :: later) time).batch.names key :=
  ⟨taken_valid_iff (run_counted (counted_start config clock) before) now taken kept,
    fun _ _ _ _ valid sets answered => Store.set_names valid.sound sets answered,
    fun _ _ _ _ time _ _ valid ordinary sets answered =>
      Store.exec_names valid ordinary time sets answered⟩

/-- `SET k 1`. -/
def rewriting : Event := .request (.command (.set [107] [49]))

/-- A token on `k` is valid when it is taken, and no more once `k` is set to the value it has. -/
theorem watch_sound_complete_rewriting :
    let o := (start ⟨1024, by decide, by decide⟩ ⟨0, 0, 1000000000⟩).run [rewriting]
    let token : WatchToken := ⟨[107], 0, none, 0⟩
    token ∈ (o.store.watch [[107]]).1 ∧
      (o.perform (.watch [[107]])).store.watchesValidAt [token] 5 = true ∧
      ((o.perform (.watch [[107]])).run [rewriting]).store.watchesValidAt [token] 5 = false := by
  intro o token
  have taken : token ∈ (o.store.watch [[107]]).1 := by decide +kernel
  have kept : ∀ done, done <+: [rewriting] →
      token ∈ ((o.perform (.watch [[107]])).run done).held := by
    intro done before
    rcases List.prefix_cons_iff.mp before with rfl | ⟨rest, rfl, nothing⟩
    · decide +kernel
    · obtain rfl := List.prefix_nil.mp nothing
      decide +kernel
  have named : ⟨.client, [.put [107] (.string [49]) none]⟩ ∈
      (o.perform (.watch [[107]])).applied [rewriting] := by decide +kernel
  refine ⟨taken, by decide +kernel, Bool.eq_false_iff.mpr fun valid => ?_⟩
  have holds := (watch_sound_complete ⟨1024, by decide, by decide⟩ ⟨0, 0, 1000000000⟩ [rewriting]
    [rewriting] [[107]] token 5 taken kept).1.mp valid
  exact holds.2.1 _ named (by decide)

end Observed

/-! ### What the registry holds -/

namespace Registry

variable {r : Registry}

/-- A registered flag is not raised. -/
theorem Tracks.calm (tracks : r.Tracks token) (sane : r.Sane)
    (entry : r.entries.get? key = some token.cell) : r.invalidated token = false := by
  obtain ⟨state, present⟩ := Option.isSome_iff_exists.mp tracks.present
  show (r.cells.get? token.cell).any _ = false
  rw [present]
  exact sane.calm key token.cell state entry present

end Registry

namespace Observed

/-- The token is one of the current registry, and not raised. -/
def Calm (o : Observed) (token : WatchToken) : Prop :=
  token.registry = o.store.watches.id ∧ o.store.watches.invalidated token = false

end Observed

end Sider
