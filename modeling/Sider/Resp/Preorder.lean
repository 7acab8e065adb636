/-
**Frames from their heads.**

A frame is written head first, and each head says how many elements follow. `waits` follows a sequence
of heads with the levels of the frames still to come, refusing a head that nests too deep: the heads of a
frame are exactly the sequences that leave nothing waiting (`waits_heads`, `frame_of_waits`).
-/

import Sider.Resp.Frame

namespace Sider.Resp

variable {levels : List Nat} {heads : List Head} {level maxDepth : Nat}

/-- The levels of the frames still to come after some heads, the next one first. -/
def waits (maxDepth : Nat) : List Nat → List Head → Option (List Nat)
  | levels, [] => some levels
  | [], _ :: _ => none
  | level :: levels, head :: heads =>
    if head.nests = true → level + 1 ≤ maxDepth then
      waits maxDepth (List.replicate head.arity (level + 1) ++ levels) heads
    else none

theorem waits_append (levels : List Nat) (first second : List Head) :
    waits maxDepth levels (first ++ second) =
      (waits maxDepth levels first).bind fun levels => waits maxDepth levels second := by
  induction first generalizing levels with
  | nil => simp [waits]
  | cons head heads ih =>
    cases levels with
    | nil => simp [waits]
    | cons level levels =>
      rw [List.cons_append, waits, waits]
      split
      · exact ih _
      · rfl

theorem waits_cons {after : List Nat} {head : Head} :
    waits maxDepth (level :: levels) (head :: heads) = some after ↔
      (head.nests = true → level + 1 ≤ maxDepth) ∧
        waits maxDepth (List.replicate head.arity (level + 1) ++ levels) heads = some after := by
  rw [waits]
  split
  · rename_i deep
    exact (and_iff_right deep).symm
  · rename_i deep
    exact iff_of_false nofun fun both => deep both.1

/-- Every frame to come has a head. -/
theorem length_le_of_waits (all : waits maxDepth levels heads = some []) :
    levels.length ≤ heads.length := by
  induction heads generalizing levels with
  | nil => cases all; exact Nat.le_refl _
  | cons head heads ih =>
    cases levels with
    | nil => exact Nat.zero_le _
    | cons level levels =>
      have rest := ih (waits_cons.mp all).2
      rw [List.length_append, List.length_replicate] at rest
      simp only [List.length_cons]
      omega

/-- No frame waits deeper than the limit. -/
theorem waits_le {after : List Nat} (all : waits maxDepth levels heads = some after)
    (low : ∀ level ∈ levels, level ≤ maxDepth) : ∀ level ∈ after, level ≤ maxDepth := by
  induction heads generalizing levels with
  | nil => cases all; exact low
  | cons head heads ih =>
    cases levels with
    | nil => cases all
    | cons level levels =>
      obtain ⟨deep, all⟩ := waits_cons.mp all
      refine ih all (List.forall_mem_append.mpr ⟨fun below inside => ?_, (List.forall_mem_cons.mp low).2⟩)
      obtain ⟨filled, rfl⟩ := List.mem_replicate.mp inside
      cases head with
      | leaf => cases filled rfl
      | opens => exact deep rfl

/-- A frame with enough levels below it leaves what waited behind it. -/
theorem waits_heads (frame : Frame) (levels : List Nat) (rest : List Head)
    (room : frame.depth ≤ maxDepth - level) :
    waits maxDepth (level :: levels) (frame.heads ++ rest) = waits maxDepth levels rest := by
  induction frame using Frame.induct generalizing level levels rest with
  | leaf value =>
    have deep : (Head.leaf value).nests = true → level + 1 ≤ maxDepth :=
      ((Frame.leaf value).depth_le_iff.mp room).1
    show waits maxDepth (level :: levels) (.leaf value :: rest) = _
    rw [waits, if_pos deep]
    rfl
  | aggregate kind items ih =>
    obtain ⟨deep, below⟩ := (Frame.aggregate kind items).depth_le_iff.mp room
    have all : ∀ (done : List Frame), (∀ item ∈ done, item ∈ items) →
        waits maxDepth (List.replicate done.length (level + 1) ++ levels)
          (done.flatMap Frame.heads ++ rest) = waits maxDepth levels rest := by
      intro done inside
      induction done with
      | nil => rfl
      | cons item others more =>
        rw [List.flatMap_cons, List.append_assoc, List.length_cons, List.replicate_succ,
          List.cons_append, ih item (inside item List.mem_cons_self) _ _
            (below item (inside item List.mem_cons_self))]
        exact more fun other member => inside other (List.mem_cons_of_mem _ member)
    rw [Frame.heads_eq, List.cons_append, waits, if_pos deep, Frame.arity_head]
    exact all items fun _ member => member

/-- **Heads that leave nothing waiting are the heads of frames.** -/
theorem heads_of_waits (all : waits maxDepth levels heads = some []) :
    ∃ frames : List Frame, heads = frames.flatMap Frame.heads ∧
      List.Forall₂ (fun level (frame : Frame) => frame.depth ≤ maxDepth - level) levels frames := by
  induction heads generalizing levels with
  | nil =>
    cases all
    exact ⟨[], rfl, .nil⟩
  | cons head heads ih =>
    cases levels with
    | nil => cases all
    | cons level levels =>
      obtain ⟨deep, rest⟩ := waits_cons.mp all
      obtain ⟨frames, rfl, depths⟩ := ih rest
      -- the first frames are the elements of the head
      have inner := List.forall₂_take head.arity depths
      have outer := List.forall₂_drop head.arity depths
      rw [List.take_left' (List.length_replicate ..)] at inner
      rw [List.drop_left' (List.length_replicate ..)] at outer
      generalize same : frames.take head.arity = items at inner
      have number : items.length = head.arity := by
        rw [← inner.length_eq, List.length_replicate]
      have below : ∀ item ∈ items, item.depth ≤ maxDepth - (level + 1) := by
        intro item member
        obtain ⟨at_, position, rfl⟩ := List.mem_iff_getElem.mp member
        have here := (List.forall₂_iff_get.mp inner).2 at_ (by simpa [number] using position) position
        simpa using here
      obtain ⟨frame, heading, inside⟩ : ∃ frame : Frame, frame.head = head ∧ frame.items = items := by
        cases head with
        | leaf value => exact ⟨.leaf value, rfl, (List.length_eq_zero_iff.mp number).symm⟩
        | opens kind length => exact ⟨.aggregate kind items, by rw [Frame.head, number]; rfl, rfl⟩
      refine ⟨frame :: frames.drop head.arity, ?_, .cons ?_ outer⟩
      · rw [List.flatMap_cons, Frame.heads_eq, heading, inside, ← same, List.cons_append,
          ← List.flatMap_append, List.take_append_drop]
      · rw [Frame.depth_le_iff, heading, inside]
        exact ⟨deep, below⟩

/-- **The heads of one frame.** -/
theorem frame_of_waits (all : waits maxDepth [0] heads = some []) :
    ∃ frame : Frame, heads = frame.heads ∧ frame.depth ≤ maxDepth := by
  obtain ⟨frames, rfl, depths⟩ := heads_of_waits all
  cases depths with
  | cons room others =>
    cases others
    exact ⟨_, by rw [List.flatMap_singleton], room⟩

end Sider.Resp
