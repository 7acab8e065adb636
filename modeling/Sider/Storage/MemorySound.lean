/-
**Every memory operation keeps a store sound.**

`memoryInner_sound`: an operation writes at most once, through `applyMemoryEdit` or the creation of
an empty collection; both test the quota, resolve the member deadlines and validate the key first.
-/

import Sider.Storage.ExecuteSound
import Sider.Storage.MemoryLifecycle

namespace Sider

open StateProgram StoreM Store

variable {rest : Nat} {key : Bytes}

/-- What an edit does: it is refused without effect, or the edited collection is stored under the
deadlines it resolves. -/
theorem run_applyMemoryEdit (s : Store) (collection : Collection) (edit : Edit) :
    (applyMemoryEdit key collection edit).run s =
      match collection.applyEdits collection.descriptor [edit] key with
      | .error error => (.error (memoryError error), s)
      | .ok candidate =>
        if s.canReplace key (.memory candidate) then
          match s.resolveMemberDeadlines key (.memory candidate) with
          | .error error => (.error (memoryError error), s)
          | .ok deadlines =>
            (.ok (.delta key collection.descriptor [edit]
              (((s.image? key).bind Image.expiry).map Prod.snd)),
              s.installEntry key
                (insertedImage (.memory candidate) ((s.image? key).bind Image.expiry) deadlines))
        else (.error .outOfMemory, s) := by
  unfold applyMemoryEdit
  cases collection.applyEdits collection.descriptor [edit] key with
  | error error => rfl
  | ok candidate =>
    dsimp only
    rw [run_bind]
    show (if s.canReplace key (.memory candidate) = true then _ else _ : StoreM _).run s = _
    split_ifs
    · rw [run_bind]
      show (match s.resolveMemberDeadlines key (.memory candidate) with
        | .error error => _
        | .ok _ => _ : StoreM _).run s = _
      cases resolved : s.resolveMemberDeadlines key (.memory candidate) with
      | error error => rfl
      | ok deadlines =>
        dsimp only
        rw [← inserted_eq resolved]
        rfl
    · rfl

theorem applyMemoryEdit_sound (collection : Collection) (edit : Edit) :
    Keeps rest (applyMemoryEdit key collection edit) := by
  intro s holds
  show Sound rest ((applyMemoryEdit key collection edit).run s).2
  rw [run_applyMemoryEdit]
  split
  · exact holds
  · rename_i candidate edited
    split_ifs with test
    · split
      · exact holds
      · rename_i deadlines resolves
        obtain ⟨inhabited, fits⟩ := canReplace_fits holds test
        rw [← inserted_eq resolves]
        refine sound_inserted holds resolves inhabited (fun stored same => ?_) fits _
        obtain rfl := Value.memory.inj same
        exact (Collection.applyEdits_ok edited).2.2.2.2.1
    · exact holds

theorem members_new {descriptor : Descriptor} {collection : Collection}
    (ok : Collection.new descriptor = .ok collection) : collection.members = ∅ := by
  unfold Collection.new at ok
  split at ok
  · cases ok
  · cases ok
    rfl

theorem memoryAbsent_sound (operation : Operation) : Keeps rest (memoryAbsent key operation) := by
  unfold memoryAbsent
  cases operation with
  | create descriptor =>
    dsimp only
    split
    · exact keeps_pure _
    · rename_i collection created
      split
      · exact keeps_pure _
      · rename_i checked
        refine Triple.bind (canReplace_triple (Sound rest) key _) fun admitted => ?_
        cases admitted with
        | false => exact Triple.pure fun _ holds => holds.1
        | true =>
          rintro s ⟨holds, test⟩
          obtain ⟨inhabited, fits⟩ := canReplace_fits holds test
          obtain ⟨deadlines, resolves⟩ := resolveMemberDeadlines_ok s key (.memory collection)
            fun id absolute due => by
              rw [memberDeadline?_memory, members_new created] at due
              cases due
          refine sound_inserted holds resolves inhabited (fun stored same => ?_) fits none
          obtain rfl := Value.memory.inj same
          exact checked
  | _ => exact keeps_pure _

/-- A member operation answers or makes one edit. -/
theorem memoryPresent_sound (image : Image) (collection : Collection) (operation : Operation) :
    Keeps rest (memoryPresent key image collection operation) := by
  unfold memoryPresent
  refine keeps_clock.bind fun clock => ?_
  split
  · split_ifs <;> exact keeps_pure _
  · exact keeps_pure _
  · exact keeps_pure _
  · split
    · exact keeps_pure _
    · exact keeps_pure _
    · refine (applyMemoryEdit_sound collection _).bind fun edited => ?_
      cases edited <;> exact keeps_pure _

theorem tryMemoryInner_sound (operation : Operation) :
    Keeps rest (tryMemoryInner key operation) := by
  unfold tryMemoryInner
  split_ifs
  · exact keeps_pure _
  · split
    · exact keeps_pure _
    · refine keeps_clock.bind fun clock => (keeps_expireKey key clock.now).bind fun _ => ?_
      refine (keeps_lookup key).bind fun entry => ?_
      split
      · exact memoryAbsent_sound operation
      · split
        · exact memoryPresent_sound _ _ operation
        · exact keeps_pure _

/-- **A memory operation keeps the store sound.** -/
theorem memoryInner_sound (operation : Operation) : Keeps rest (memoryInner key operation) := by
  unfold memoryInner
  refine (tryMemoryInner_sound operation).bind fun outcome => ?_
  cases outcome <;> exact keeps_pure _

end Sider
