/-
**Atomicity of the coordinated EXEC.**

While admission is open every channel is quiet between operations, so a transaction starts without
tentative state anywhere, and `executeCoordinated_atomic` reads its three possible ends off the phases.
-/

import Sider.Storage.Admission

namespace Sider

open FailingProgram Store

variable {s t : System} {participants : List Nat} {mode : Mode}

/-- The data of the owner changed in this way, now and once it has handled its queue. -/
structure Channel.Changed (change : Store → Store) (c d : Channel) : Prop where
  now : SameData (change c.owner.store) d.owner.store
  settled : SameData (change c.settled.store) d.settled.store

theorem Channel.changed_of_quiet {change : Store → Store} {c d : Channel} (before : c.Quiet) (after : d.Quiet)
    (keeps : ∀ {s t : Store}, SameData s t → SameData (change s) (change t))
    (changed : SameData (change c.owner.store) d.settled.store) : Changed change c d :=
  ⟨changed.trans after.settled.2.symm, (keeps before.settled.2).symm.trans changed⟩

namespace Coordinator

/-- No record is added and no owner's data changes. -/
structure Untouched (s t : System) : Prop where
  log : t.log = s.log
  stores : ∀ shard, Channel.Changed id (s.channels shard) (t.channels shard)

/-- One record holds the mutations of every participant, and each has applied its own; a handle
without a log writes none. -/
structure Committed (s t : System) (mode : Mode) (participants : List Nat)
    (owners : List (Nat × Prepared)) : Prop where
  shards : owners.map Prod.fst = participants
  listed : ∀ owner ∈ owners, owner.2.batch.mutations = owner.2.entries.map Mutation.ofEntry
  log : t.log = s.log ++ if mode.durable then [⟨.client, mergedMutations owners⟩] else []
  applied : ∀ owner ∈ owners,
    Channel.Changed (Store.apply · owner.2) (s.channels owner.1) (t.channels owner.1)
  others : ∀ shard ∉ participants, Channel.Changed id (s.channels shard) (t.channels shard)

theorem untouched_of_holds (calm : Calm s)
    (kept : Resting s.log t.gate (fun shard => (s.channels shard).owner.store) t) :
    Untouched s t :=
  ⟨kept.1, fun shard => Channel.changed_of_quiet (calm shard) ((kept.2.2 shard).quiet id) id
    (kept.2.2 shard).same⟩

/-- An ended transaction changed nothing, or committed. -/
theorem untouched_or_committed (calm : Calm s)
    (ended : Ended s.log (fun shard => (s.channels shard).owner.store) mode participants t) :
    Untouched s t ∨ ∃ owners, Committed s t mode participants owners := by
  rcases ended with kept | ⟨owners, prepares, log, _, each⟩
  · exact .inl (untouched_of_holds calm kept)
  have others : ∀ shard ∉ participants, Channel.Changed id (s.channels shard) (t.channels shard) :=
    fun shard outside => Channel.changed_of_quiet (calm shard) (each shard).quiet id
      ((each shard).rest (prepares.shards ▸ outside))
  by_cases silent : mode.durable = true ∧ mergedMutations owners = []
  · have entries := entries_eq_nil prepares.mutations silent.2
    refine .inl ⟨?_, fun shard => ?_⟩
    · rw [log, records, silent.1, silent.2]
      exact List.append_nil _
    · by_cases inside : shard ∈ participants
      · rw [← prepares.shards] at inside
        obtain ⟨owner, member, rfl⟩ := List.mem_map.mp inside
        exact Channel.changed_of_quiet (calm _) (each _).quiet id
          ((sameData_apply_nil _ (entries owner member)).trans ((each _).done owner.2 member))
      · exact others shard inside
  · refine .inr ⟨owners, prepares.shards, prepares.mutations, ?_, fun owner member => ?_, others⟩
    · rw [log, records]
      cases durable : mode.durable with
      | false => rfl
      | true =>
        have written : mergedMutations owners ≠ [] := fun empty => silent ⟨durable, empty⟩
        rw [List.isEmpty_eq_false_iff.mpr written]
        rfl
    · exact Channel.changed_of_quiet (calm owner.1) (each owner.1).quiet (fun same => same.apply owner.2)
        ((each owner.1).done owner.2 member)

/-- The three ends of a transaction. -/
inductive Concludes (s t : System) (handle : DbHandle) (commands : List Command) (watched : List WatchToken) :
    Prop
  | untouched (opened : t.gate.isOpen = true) (same : Untouched s t)
  | committed {mode : Mode} {owners : List (Nat × Prepared)} (opened : t.gate.isOpen = true)
      (chosen : Coordinator.mode handle = some mode)
      (committed : Committed s t mode
        (handle.router.transactionParticipants commands (watched.map WatchToken.key)) owners)
  | closed (shut : t.gate.isOpen = false)

theorem executeCoordinated_ends (settled : Settled s) (env : Environment) (handle : DbHandle)
    (commands : List Command) (watched : List WatchToken) :
    Concludes s ((executeCoordinated env handle commands watched).run s).2 handle commands watched := by
  cases ends : ((executeCoordinated env handle commands watched).run s).2.gate.isOpen with
  | false => exact .closed ends
  | true =>
    have calm : Calm s := settled <| by
      by_contra closed
      have kept := (closed_step (by simpa using closed) (.execute env handle commands watched)).1
      exact closed ((congrArg Admission.isOpen kept).symm.trans ends)
    rcases executeCoordinated_triple env handle commands watched s calm.holds with
      closed | kept | ⟨mode, participants, ⟨chosen, rfl⟩, ended⟩
    · exact Bool.noConfusion (closed.symm.trans ends)
    · exact .untouched ends (untouched_of_holds calm kept)
    · rcases untouched_or_committed calm ended with same | ⟨owners, committed⟩
      · exact .untouched ends same
      · exact .committed ends chosen committed

/-- **A coordinated EXEC is atomic under failure.** Whatever becomes of its controls, of the log and of
the injected faults, it ends with nothing changed, with one record and every participant changed, or
with admission closed. Once admission is closed, every later operation is refused and changes nothing, in
any order; open admission leaves no owner with tentative state, now or after it has handled what still
waits for it. -/
theorem executeCoordinated_atomic {s : System} (reachable : Reachable s) (env : Environment)
    (handle : DbHandle) (commands : List Command) (watched : List WatchToken) :
    let t := ((executeCoordinated env handle commands watched).run s).2
    Concludes s t handle commands watched ∧
    (t.gate.isOpen = false → ∀ operations : List Operation,
      let u := operations.foldl perform t
      u.gate.isOpen = false ∧ u.log = t.log ∧
        (∀ shard, (u.channels shard).settled = (t.channels shard).settled) ∧ Shut u) ∧
    (t.gate.isOpen = true → ∀ shard, (t.channels shard).owner.coordinated = none ∧
      (t.channels shard).settled.coordinated = none) := by
  refine ⟨executeCoordinated_ends reachable.settled env handle commands watched,
    fun closed operations => closed_run closed operations, fun opened shard => ?_⟩
  have quiet := reachable.settled.perform (.execute env handle commands watched) opened shard
  exact ⟨quiet.idle, quiet.settled.1⟩

/-- Empty owners of one composed log. -/
def pair : System where
  channels := fun _ =>
    ⟨⟨Store.withConfig ⟨1000, by decide, by decide⟩ ⟨0, 0, 1000000000⟩ 0, none, some ⟨7, true⟩, none⟩, []⟩
  log := []
  gate := ⟨true⟩
  fates := []

/-- Two keys of different owners. With every control answered there is one record. If the log fails,
admission is closed, and even the requests of one owner are refused. -/
theorem executeCoordinated_atomic_pair :
    let handle : DbHandle := ⟨⟨2, by decide, by decide⟩, some ⟨7, true⟩, false⟩
    let commands : List Command := [.set [97] [49], .set [98] [50]]
    let run := fun fate : AppendFate =>
      ((executeCoordinated ⟨.ok (), fate, fun _ => false⟩ handle commands []).run pair).2
    (run .written).log = [⟨.client, [.put [97] (.string [49]) none, .put [98] (.string [50]) none]⟩] ∧
      Concludes pair (run .written) handle commands [] ∧ (run .written).gate.isOpen = true ∧
      Concludes pair (run (.failed true)) handle commands [] ∧ (run (.failed true)).gate.isOpen = false ∧
      ∀ env outcome, Refuses (request env outcome) (run (.failed true)) := by
  intro handle commands run
  have start : Reachable pair := .start fun _ => ⟨rfl, rfl⟩
  have closed : (run (.failed true)).gate.isOpen = false := by decide +kernel
  have failed := executeCoordinated_atomic start ⟨.ok (), .failed true, fun _ => false⟩ handle commands []
  exact ⟨by decide +kernel, (executeCoordinated_atomic start _ handle commands []).1, by decide +kernel,
    failed.1, closed, (failed.2.1 closed []).2.2.2.request⟩

end Coordinator

end Sider
