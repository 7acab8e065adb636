/-
**Replaying a logged batch.**

`Resolves s mutation entry` says what replaying one mutation leaves at its key. A batch is accepted
exactly when its keys are distinct, every mutation resolves and the result fits:
`prepareReplay_ok` (an accepted batch is admissible) and `prepareReplay_eq_ok` (the converse).
-/

import Sider.Storage.Apply

namespace Sider

variable {mutation : Mutation} {state next : Nat × List (Bytes × Option Image)}
  {mutations : List Mutation} {entries : List (Bytes × Option Image)} {origin : MutationOrigin}
  {p : Prepared} {value : Value}

namespace Store

variable {rest : Nat} {s : Store}

/-! ### One mutation -/

/-- What a replayed mutation leaves at its key. -/
inductive Resolves (s : Store) : Mutation → Bytes × Option Image → Prop
  | delete (key : Bytes) : Resolves s (.delete key) (key, none)
  | elapsed {key : Bytes} {value : Value} {expiresAtUnixMs : Option Int}
      (past : elapsed s.clock value expiresAtUnixMs = true) :
      Resolves s (.put key value expiresAtUnixMs) (key, none)
  | put {key : Bytes} {value : Value} {expiresAtUnixMs : Option Int} {expiresAt : Option Nat}
      {deadlines : OrdMap Bytes Nat} (kept : Store.elapsed s.clock value expiresAtUnixMs = false)
      (checked : replayCheck key value = .ok ())
      (expiry : replayDeadline s.clock expiresAtUnixMs = .ok expiresAt)
      (inhabited : value.inhabited = true)
      (members : s.resolveMemberDeadlines key value = .ok deadlines) :
      Resolves s (.put key value expiresAtUnixMs)
        (key, some ⟨value, expiresAt, expiresAtUnixMs, deadlines⟩)

theorem Resolves.key {entry : Bytes × Option Image} (resolves : Resolves s mutation entry) :
    entry.1 = mutation.key := by
  cases resolves <;> rfl

theorem replayDeadline_isSome {clock : Clock} {expiresAtUnixMs : Option Int} {expiresAt : Option Nat}
    (ok : replayDeadline clock expiresAtUnixMs = .ok expiresAt) :
    expiresAt.isSome = expiresAtUnixMs.isSome := by
  cases expiresAtUnixMs with
  | none =>
    cases ok
    rfl
  | some absolute =>
    simp only [replayDeadline] at ok
    split at ok
    · cases ok
      rfl
    · cases ok

theorem Resolves.good {key : Bytes} {image : Image}
    (resolves : Resolves s mutation (key, some image)) : image.Good key := by
  cases resolves with
  | put kept checked expiry inhabited members =>
    refine ⟨inhabited, replayDeadline_isSome expiry,
      fun id => (get?_resolveMemberDeadlines members id).2, fun collection same => ?_⟩
    subst same
    simp only [replayCheck] at checked
    split at checked
    · assumption
    · cases checked

theorem replayCharge_eq_ok {used next : Nat} {key : Bytes} :
    replayCharge used key value = .ok next ↔
      value.inhabited = true ∧ used + entrySize key value < Machine.word ∧
        used + entrySize key value = next := by
  unfold replayCharge
  rw [entryBytes_eq]
  by_cases inhabited : value.inhabited = true
  · by_cases small : entrySize key value < Machine.word
    · rw [if_pos ⟨inhabited, small⟩, Option.bind_some]
      by_cases fits : used + entrySize key value < Machine.word
      · simp [Machine.checkedAdd, fits, inhabited]
      · simp [Machine.checkedAdd, fits]
    · rw [if_neg (fun both => small both.2)]
      simp only [Option.bind_none, reduceCtorEq, false_iff, not_and]
      intro _ fits
      omega
  · simp [inhabited]

theorem replayMembers_eq_ok {key : Bytes} {deadlines : OrdMap Bytes Nat} :
    s.replayMembers key value = .ok deadlines ↔
      s.resolveMemberDeadlines key value = .ok deadlines := by
  unfold replayMembers
  cases s.resolveMemberDeadlines key value <;> simp

/-- **Replaying one mutation**, when the byte count stays representable. -/
theorem replayEntry_eq_ok :
    s.replayEntry state mutation = .ok next ↔
      ∃ entry, Resolves s mutation entry ∧
        next = (state.1 + entryCharge entry, state.2 ++ [entry]) ∧
        (entry.2.isSome → state.1 + entryCharge entry < Machine.word) := by
  cases mutation with
  | delete key =>
    constructor
    · intro ok
      cases ok
      exact ⟨_, .delete key, rfl, nofun⟩
    · rintro ⟨entry, resolves, rfl, _⟩
      cases resolves
      rfl
  | put key value expiresAtUnixMs =>
    unfold replayEntry
    dsimp only
    cases past : Store.elapsed s.clock value expiresAtUnixMs with
    | true =>
      constructor
      · intro ok
        cases ok
        exact ⟨_, .elapsed past, rfl, nofun⟩
      · rintro ⟨entry, resolves, rfl, _⟩
        cases resolves with
        | elapsed _ => rfl
        | put kept => rw [past] at kept; cases kept
    | false =>
      constructor
      · intro ok
        obtain ⟨_, checked, ok⟩ := bind_eq_ok ok
        obtain ⟨expiresAt, expiry, ok⟩ := bind_eq_ok ok
        obtain ⟨used, charged, ok⟩ := bind_eq_ok ok
        obtain ⟨deadlines, members, ok⟩ := bind_eq_ok ok
        cases ok
        obtain ⟨inhabited, small, rfl⟩ := replayCharge_eq_ok.mp charged
        exact ⟨_, .put past checked expiry inhabited (replayMembers_eq_ok.mp members), rfl,
          fun _ => small⟩
      · rintro ⟨entry, resolves, rfl, small⟩
        cases resolves with
        | elapsed late => rw [past] at late; cases late
        | put kept checked expiry inhabited members =>
          rw [checked, expiry, replayCharge_eq_ok.mpr ⟨inhabited, small rfl, rfl⟩,
            replayMembers_eq_ok.mpr members]
          rfl

/-! ### A whole batch -/

theorem foldlM_replayEntry (ok : mutations.foldlM s.replayEntry state = .ok next) :
    ∃ entries, List.Forall₂ (Resolves s) mutations entries ∧
      next = (state.1 + entriesCharge entries, state.2 ++ entries) := by
  induction mutations generalizing state with
  | nil =>
    cases ok
    exact ⟨[], .nil, by simp [entriesCharge]⟩
  | cons mutation others ih =>
    obtain ⟨middle, head, tail⟩ := bind_eq_ok ok
    obtain ⟨entry, resolves, rfl, _⟩ := replayEntry_eq_ok.mp head
    obtain ⟨entries, all, rfl⟩ := ih tail
    refine ⟨entry :: entries, .cons resolves all, ?_⟩
    rw [← List.append_cons]
    exact congrArg (·, _) (Nat.add_assoc ..)

theorem release_eq (holds : Sound rest s) (state : Released) (mutation : Mutation) :
    s.release state mutation =
      if mutation.key ∈ state.keys then .error .duplicateKey
      else .ok ⟨state.keys.add mutation.key, state.used - s.held mutation.key,
        state.fault || state.used < s.held mutation.key⟩ := by
  unfold release
  by_cases seen : mutation.key ∈ state.keys
  · rw [if_pos seen, if_pos seen]
  · cases found : s.values.get? mutation.key with
    | none =>
      rw [image?_eq_none.mpr found, held_of_none found]
      simp
    | some entry =>
      rw [image?_eq_some.mpr ⟨entry, found, rfl⟩, held_of_some found]
      simp only [holds.entryBytes_eq found]

/-- The first pass: distinct keys, and the byte count without what they hold. -/
theorem foldlM_release (holds : Sound rest s) {state next : Released}
    (ok : mutations.foldlM s.release state = .ok next) :
    (mutations.map Mutation.key).Nodup ∧ (∀ mutation ∈ mutations, mutation.key ∉ state.keys) ∧
      (heldAll s (mutations.map Mutation.key) ≤ state.used →
        next.used = state.used - heldAll s (mutations.map Mutation.key) ∧
          next.fault = state.fault) := by
  induction mutations generalizing state with
  | nil =>
    cases ok
    exact ⟨List.nodup_nil, fun _ => nofun, fun _ => ⟨rfl, rfl⟩⟩
  | cons mutation others ih =>
    rw [List.foldlM_cons, release_eq holds] at ok
    obtain ⟨middle, head, tail⟩ := bind_eq_ok ok
    split_ifs at head with seen
    cases head
    obtain ⟨nodup, fresh, used⟩ := ih tail
    have split : heldAll s ((mutation :: others).map Mutation.key) =
        s.held mutation.key + heldAll s (others.map Mutation.key) := rfl
    have later : ∀ other ∈ others, other.key ≠ mutation.key ∧ other.key ∉ state.keys := by
      intro other member
      have absent := fresh other member
      rw [OrdMap.mem_add, not_or] at absent
      exact absent
    refine ⟨List.nodup_cons.mpr ⟨fun member => ?_, nodup⟩, fun other member => ?_, fun covered => ?_⟩
    · obtain ⟨other, inside, same⟩ := List.mem_map.mp member
      exact (later other inside).1 same
    · rcases List.mem_cons.mp member with rfl | inside
      · exact seen
      · exact (later other inside).2
    · obtain ⟨used, calm⟩ := used (by show _ ≤ state.used - s.held mutation.key; omega)
      have enough : ¬ state.used < s.held mutation.key := by omega
      refine ⟨used.trans (by show state.used - s.held mutation.key - _ = _; omega), calm.trans ?_⟩
      simp [enough]

theorem foldlM_release_ok (holds : Sound rest s) {state : Released}
    (nodup : (mutations.map Mutation.key).Nodup)
    (fresh : ∀ mutation ∈ mutations, mutation.key ∉ state.keys) :
    ∃ next, mutations.foldlM s.release state = .ok next := by
  induction mutations generalizing state with
  | nil => exact ⟨state, rfl⟩
  | cons mutation others ih =>
    obtain ⟨apart, tail⟩ := List.nodup_cons.mp nodup
    rw [List.foldlM_cons, release_eq holds, if_neg (fresh mutation List.mem_cons_self)]
    refine ih tail fun other member seen => ?_
    rcases OrdMap.mem_add.mp seen with same | old
    · exact apart (same ▸ List.mem_map.mpr ⟨other, member, rfl⟩)
    · exact fresh other (List.mem_cons_of_mem _ member) old

theorem exists_of_forall₂ {α β : Type} {relation : α → β → Prop} {list : List α} {images : List β}
    (all : List.Forall₂ relation list images) {image : β} (member : image ∈ images) :
    ∃ item ∈ list, relation item image := by
  induction all with
  | nil => cases member
  | cons head _ ih =>
    rcases List.mem_cons.mp member with rfl | inside
    · exact ⟨_, List.mem_cons_self, head⟩
    · obtain ⟨item, found, related⟩ := ih inside
      exact ⟨item, List.mem_cons_of_mem _ found, related⟩

section

variable (resolved : List.Forall₂ (Resolves s) mutations entries)

include resolved

theorem foldlM_replayEntry_ok (small : state.1 + entriesCharge entries < Machine.word) :
    mutations.foldlM s.replayEntry state =
      .ok (state.1 + entriesCharge entries, state.2 ++ entries) := by
  induction resolved generalizing state with
  | nil => simp [entriesCharge, pure, Except.pure]
  | @cons mutation entry others entries resolves all ih =>
    have split : entriesCharge (entry :: entries) = entryCharge entry + entriesCharge entries := rfl
    rw [split] at small ⊢
    rw [List.foldlM_cons, replayEntry_eq_ok.mpr ⟨entry, resolves, rfl, fun _ => by omega⟩]
    show others.foldlM s.replayEntry _ = _
    rw [ih (by show state.1 + entryCharge entry + entriesCharge entries < _; omega),
      ← List.append_cons, Nat.add_assoc]

theorem resolved_keys : entries.map Prod.fst = mutations.map Mutation.key := by
  induction resolved with
  | nil => rfl
  | cons resolves _ ih => rw [List.map_cons, List.map_cons, ih, resolves.key]

theorem resolved_good : GoodEntries entries := by
  induction resolved with
  | nil => exact nofun
  | @cons mutation entry _ _ resolves _ ih =>
    intro later member image same
    rcases List.mem_cons.mp member with rfl | inside
    · obtain ⟨key, after⟩ := later
      subst same
      exact resolves.good
    · exact ih later inside image same

end

/-- **An accepted batch is admissible**, and each of its entries is what its mutation resolves to. -/
theorem prepareReplay_ok (holds : Sound rest s) (ok : s.prepareReplay mutations origin = .ok p) :
    Admissible s p ∧ List.Forall₂ (Resolves s) mutations p.entries := by
  obtain ⟨released, first, ok⟩ := bind_eq_ok ok
  obtain ⟨⟨used, entries⟩, second, ok⟩ := bind_eq_ok ok
  obtain ⟨nodup, _, spec⟩ := foldlM_release holds first
  have covered := (foldl_dropKey_sound nodup holds).2
  obtain ⟨usage, calm⟩ := spec (show heldAll s _ ≤ s.usedBytes by omega)
  obtain ⟨found, resolved, same⟩ := foldlM_replayEntry second
  obtain ⟨rfl, rfl⟩ := Prod.mk.inj same
  dsimp only at ok
  split_ifs at ok with exceeds
  cases ok
  have names := resolved_keys resolved
  change released.used = s.usedBytes - _ at usage
  refine ⟨⟨?_, calm, rfl, resolved_good resolved, ?_⟩, resolved⟩
  · show (entries.map Prod.fst).Nodup
    rw [names]
    exact nodup
  · show s.usedBytes + entriesCharge entries ≤
      s.config.maxDatasetBytes + heldAll s (entries.map Prod.fst)
    rw [names]
    omega

/-- **A batch that resolves and fits is accepted.** -/
theorem prepareReplay_eq_ok (holds : Sound rest s) (nodup : (mutations.map Mutation.key).Nodup)
    (resolved : List.Forall₂ (Resolves s) mutations entries)
    (fits : s.usedBytes + entriesCharge entries ≤
      s.config.maxDatasetBytes + heldAll s (mutations.map Mutation.key)) (origin : MutationOrigin) :
    s.prepareReplay mutations origin = .ok (s.prepared .ok entries origin false) := by
  obtain ⟨released, first⟩ := show ∃ released, mutations.foldlM s.release ⟨∅, s.usedBytes, false⟩ =
    .ok released from foldlM_release_ok holds nodup fun _ _ => by simp
  have covered := (foldl_dropKey_sound nodup holds).2
  obtain ⟨usage, calm⟩ := (foldlM_release holds first).2.2 (show heldAll s _ ≤ s.usedBytes by omega)
  change released.used = s.usedBytes - _ at usage
  have word := quota_lt_word s.config
  have second : mutations.foldlM s.replayEntry (released.used, []) =
      .ok (released.used + entriesCharge entries, [] ++ entries) :=
    foldlM_replayEntry_ok resolved (by show released.used + _ < _; omega)
  unfold prepareReplay
  rw [first]
  show (mutations.foldlM s.replayEntry (released.used, []) >>= _) = _
  rw [second]
  show (if s.config.maxDatasetBytes < released.used + entriesCharge entries then _ else _) = _
  rw [if_neg (by omega), calm]
  rfl

/-- A record-2 batch is accepted through the version 1 batch of its images. -/
theorem prepareMemoryReplay_ok (holds : Sound rest s) {mutations : List MemoryMutation}
    (ok : s.prepareMemoryReplay mutations origin = .ok p) : Admissible s p := by
  obtain ⟨⟨_, images⟩, _, ok⟩ := bind_eq_ok ok
  exact (prepareReplay_ok holds ok).1

end Store

end Sider
