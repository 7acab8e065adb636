/-
**Monotonic deadlines are kept while the absolute ones are.**

No command creates a memory collection or touches the deadlines of its members (`executeInner_retains`),
and every other way to write a collection resolves deadlines against the image it replaces. So
whatever happens to a store, a member that has the same absolute deadline before and after has the
same monotonic deadline as well (`perform_keepsDeadlines`).
-/

import Sider.Storage.MemoryEffect
import Sider.Storage.Sequential

namespace Sider

open StateProgram StoreM Store

/-! ### Commands -/

/-- Every memory collection of `s` was at its key in `start`, with the same deadlines of members. -/
abbrev Retains : Store → Store → Prop :=
  Stems fun _ old image => old.value = image.value ∧ old.memberDeadlines = image.memberDeadlines

section Commands

variable {rest : Nat} {start s : Store} {key : Bytes} {plain : Prop}

theorem retains_of_images (same : ∀ key, s.image? key = start.image? key) : Retains start s :=
  fun key image _ found _ => ⟨image, (same key).symm.trans found, rfl, rfl⟩

theorem Retains.trans {middle : Store} (first : Retains start middle) (second : Retains middle s) :
    Retains start s := by
  intro key image collection found memory
  obtain ⟨between, found, value, deadlines⟩ := second key image collection found memory
  obtain ⟨old, found, value', deadlines'⟩ := first key between collection found (value.trans memory)
  exact ⟨old, found, value'.trans value, deadlines'.trans deadlines⟩

theorem Retains.congr {t : Store} (retains : Retains start t)
    (same : ∀ key, s.image? key = t.image? key) : Retains start s :=
  retains.trans (retains_of_images same)

theorem retains_settled (settled : Settled start key s) : Retains start s := by
  have self : Retains start start := retains_of_images fun _ => rfl
  rcases settled with rfl | rfl
  · exact self
  · exact self.removed key

variable (holds : Sound rest start)

include holds

/-- Writing back the value that was just read, under another deadline of the key. -/
theorem insert_same_retains (image : Image) (expiry : Option (Nat × Int)) (reply : Reply) :
    Triple (fun s => Settled start key s ∧ s.image? key = some image)
      (do insert key image.value expiry; pure reply) fun _ => Retains start := by
  rintro s ⟨settled, found⟩
  obtain ⟨entry, stored, rfl⟩ := image?_eq_some.mp (image_settled settled found)
  have resolved := resolveMemberDeadlines_same found (holds.good key entry stored)
  show Retains start (s.inserted key entry.value expiry)
  rw [inserted_eq resolved]
  exact (retains_settled settled).installEntry fun _ _ =>
    ⟨entry.toImage, image_settled settled found, rfl, rfl⟩

/-- **A command keeps every collection it leaves, with the deadlines of its members.** -/
theorem executeInner_retains (command : Command) :
    Retains start ((executeInner command).run start).2 := by
  have self : ∀ s, s = start → Retains start s := fun _ same => same ▸ retains_of_images fun _ => rfl
  exact executeInner_stems self (fun visits => visits.stems self (expireKey_settled _)
    (fun _ => retains_settled) (insert_same_retains holds)) command start rfl

theorem sequential_retains (commands : List Command) :
    Retains start (sequential start commands).1 := by
  induction commands using List.reverseRecOn with
  | nil => exact retains_of_images fun _ => rfl
  | append_singleton commands command ih =>
    have sound := sequential_sound holds commands
    rw [sequential_append]
    cases command with
    | unwatch => exact ih
    | _ => exact ih.trans (executeInner_retains sound _)

end Commands

/-! ### Whole events -/

/-- A member with the same absolute deadline in both images has the same monotonic one. -/
def SameDeadlines (old new : Image) : Prop :=
  ∀ id absolute, old.value.memberDeadline? id = some absolute →
    new.value.memberDeadline? id = some absolute →
    new.memberDeadlines.get? id = old.memberDeadlines.get? id

/-- A member that keeps its absolute deadline from `s` to `t` keeps its monotonic one. -/
def KeepsDeadlines (s t : Store) : Prop :=
  ∀ key old new, s.image? key = some old → t.image? key = some new → SameDeadlines old new

namespace Store

variable {rest : Nat} {s : Store} {key : Bytes}

theorem keepsDeadlines_of_retains {t : Store} (retains : Retains s t) : KeepsDeadlines s t := by
  intro key old new found after id absolute _ due
  obtain ⟨member, held, _⟩ := Option.bind_eq_some_iff.mp due
  obtain ⟨collection, memory, _⟩ := Option.bind_eq_some_iff.mp held
  obtain ⟨same, before, _, deadlines⟩ := retains key new collection after (asMemory_eq memory)
  cases found.symm.trans before
  rw [deadlines]

/-- Deadlines resolved against the image that is replaced. -/
theorem sameDeadlines_resolved {start : Store} {old new : Image} {value : Value}
    {deadlines : OrdMap Bytes Nat} (good : old.Good key) (found : start.image? key = some old)
    (resolved : start.resolveMemberDeadlines key value = .ok deadlines) (stored : new.value = value)
    (kept : new.memberDeadlines = deadlines) : SameDeadlines old new := by
  intro id absolute before after
  rw [stored] at after
  rw [kept, (get?_resolveMemberDeadlines resolved id).1, after]
  exact (resolvedDeadline_kept found good before).1

/-- What a memory operation leaves at its key keeps the deadlines of the members it keeps. -/
theorem sameDeadlines_effect {start after : Store} {resolved : Option MemoryMutation} {old new : Image}
    (effect : MemoryEffect start key resolved after) (good : old.Good key)
    (found : start.image? key = some old) (left : after.image? key = some new) :
    SameDeadlines old new := by
  have unchanged : SameDeadlines old old := fun _ _ _ _ => rfl
  cases effect with
  | quiet settled =>
    cases found.symm.trans (image_settled settled left)
    exact unchanged
  | create settled fresh checked resolved =>
    rw [image?_installEntry, if_pos rfl] at left
    cases left
    intro id absolute _ due
    rw [show (insertedImage _ none _).value.memberDeadline? id = _ from memberDeadline?_memory _ id,
      fresh] at due
    cases due
  | edit settled hit memory accepted resolved =>
    rw [image?_installEntry, if_pos rfl] at left
    cases left
    have same := image_settled settled hit
    cases found.symm.trans same
    exact sameDeadlines_resolved good hit resolved rfl rfl

variable (holds : Sound rest s)

include holds

theorem keepsDeadlines_memory (key : Bytes) (operation : Operation) (recordLimit : Nat) :
    KeepsDeadlines s (s.apply (s.prepareMemoryWithLimit key operation recordLimit).prepared) := by
  have kept : KeepsDeadlines s s := keepsDeadlines_of_retains (retains_of_images fun _ => rfl)
  intro probe old new found after
  rw [prepareMemoryWithLimit_eq] at after
  split at after
  · rw [((memory_overlay holds key operation _).apply holds).2] at after
    split_ifs at after with own
    · obtain rfl := List.mem_singleton.mp own
      obtain ⟨entry, stored, rfl⟩ := image?_eq_some.mp found
      have copied : (s.memoryShadow probe).image? probe = some entry.toImage := by
        rw [(copied_memoryShadow s probe).image?, if_pos own, found]
      exact sameDeadlines_effect (memoryInner_effect probe operation (s.memoryShadow probe))
        (holds.good probe entry stored) copied after
    · exact kept probe old new found after
  · exact kept probe old new found after

theorem keepsDeadlines_expiration (budget : Nat) :
    KeepsDeadlines s (s.apply (s.prepareExpiration budget)) := by
  intro key old new found after
  have nodup := prepareExpiration_nodup holds budget
  rw [image?_apply s _ nodup] at after
  cases hit : OrdMap.find (s.prepareExpiration budget).entries key with
  | none =>
    rw [hit, Option.getD_none] at after
    cases found.symm.trans after
    exact fun _ _ _ _ => rfl
  | some image =>
    rw [hit, Option.getD_some] at after
    subst after
    rcases mem_prepareExpiration holds (OrdMap.mem_of_find_eq_some hit) with ⟨_, gone⟩ | ⟨_, same, cleaned⟩
    · cases gone
    · cases same
      obtain ⟨before, collection, ids, candidate, stored, memory, without, rfl⟩ := cleaned
      cases found.symm.trans stored
      intro id absolute _ due
      change (candidate.members.get? id).bind Member.deadline = some absolute at due
      rw [without.members, OrdMap.get?_foldl_erase] at due
      rw [OrdMap.get?_foldl_erase]
      split_ifs at due ⊢
      · cases due
      · rfl

theorem keepsDeadlines_replay {mutations : List Mutation} {p : Prepared}
    (ok : s.prepareReplay mutations .client = .ok p) : KeepsDeadlines s (s.apply p) := by
  obtain ⟨admissible, resolved⟩ := prepareReplay_ok holds ok
  intro key old new found after
  rw [image?_apply s p admissible.nodup] at after
  cases hit : OrdMap.find p.entries key with
  | none =>
    rw [hit, Option.getD_none] at after
    cases found.symm.trans after
    exact fun _ _ _ _ => rfl
  | some image =>
    rw [hit, Option.getD_some] at after
    subst after
    obtain ⟨entry, stored, rfl⟩ := image?_eq_some.mp found
    obtain ⟨mutation, _, resolves⟩ := exists_of_forall₂ resolved (OrdMap.mem_of_find_eq_some hit)
    cases resolves with
    | put _ _ _ _ members => exact sameDeadlines_resolved (holds.good key entry stored) found members rfl rfl

/-- **A member that keeps its absolute deadline through an event keeps its monotonic one.** -/
theorem perform_keepsDeadlines (event : Event) : KeepsDeadlines s (s.perform event) := by
  have kept : KeepsDeadlines s s := keepsDeadlines_of_retains (retains_of_images fun _ => rfl)
  cases event with
  | tick clock => exact kept
  | watch keys =>
    show KeepsDeadlines s (s.watch keys).2
    rw [watch_store]
    exact kept
  | drop token => exact kept
  | request request =>
    unfold perform
    dsimp only
    cases prepared : s.preparation request with
    | none => exact kept
    | some p =>
      cases request with
      | command command =>
        cases prepared
        by_cases memory : command.isMemory = true
        · exact keepsDeadlines_of_retains
            (retains_of_images (image?_apply_nil (prepare_memory_entries s memory).1))
        · exact keepsDeadlines_of_retains ((executeInner_retains holds command).congr
            (apply_prepare holds (Bool.eq_false_iff.mpr memory)).2)
      | batch commands time =>
        cases prepared
        by_cases memory : commands.any Command.isMemory = true
        · rw [prepareBatchAt_memory s memory]
          exact keepsDeadlines_of_retains (retains_of_images (image?_apply_nil rfl))
        · have ordinary : ∀ command ∈ commands, command.isMemory = false := fun command member =>
            Bool.eq_false_iff.mpr fun memory' => memory (List.any_eq_true.mpr ⟨command, member, memory'⟩)
          have retains := sequential_retains (holds.atClock time) commands
          exact keepsDeadlines_of_retains
            (retains.congr (image?_apply_prepareBatchAt holds ordinary time))
      | memory key operation recordLimit =>
        cases prepared
        exact keepsDeadlines_memory holds key operation recordLimit
      | expiration budget =>
        cases prepared
        exact keepsDeadlines_expiration holds budget
      | replay mutations => exact keepsDeadlines_replay holds (toOption_eq_some prepared)
      | replayMemory mutations =>
        obtain ⟨⟨_, images⟩, _, ok⟩ := bind_eq_ok (toOption_eq_some prepared)
        exact keepsDeadlines_replay holds ok

end Store

end Sider
