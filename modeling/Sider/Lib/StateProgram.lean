/-
**Rules for programs on an explicit state.**

A program is a `StateM σ α`. Two judgements, with the rules that follow the shape of a program:

* `Triple pre program post` — from a state satisfying `pre` the result and the final state
  satisfy `post`; rules `Triple.pure`, `Triple.bind`, `Triple.weaken`, `Triple.foldlM`.
* `Related rel left right` — two programs started in related states return the same result in
  related states; rules `Related.pure`, `Related.bind`.
-/

import Mathlib.Control.Lawful

namespace StateProgram

variable {σ τ α β : Type} {next : α → StateM σ β} {first program : StateM σ α}

variable {pre : σ → Prop} {post : α → σ → Prop}

/-- A program goes on from the result of its first part. -/
theorem run_bind (first : StateM σ α) (next : α → StateM σ β) (s : σ) :
    (first >>= next).run s = (next (first.run s).1).run (first.run s).2 := rfl

/-! ### Preconditions and postconditions -/

/-- From `pre`, the program's result and final state satisfy `post`. -/
def Triple (pre : σ → Prop) (program : StateM σ α) (post : α → σ → Prop) : Prop :=
  ∀ s, pre s → post (program.run s).1 (program.run s).2

theorem Triple.pure {value : α} (holds : ∀ s, pre s → post value s) :
    Triple pre (Pure.pure value : StateM σ α) post :=
  holds

theorem Triple.bind {mid : α → σ → Prop} {post : β → σ → Prop} (head : Triple pre first mid)
    (tail : ∀ value, Triple (mid value) (next value) post) : Triple pre (first >>= next) post :=
  fun s holds => tail _ _ (head s holds)

theorem Triple.weaken {pre' : σ → Prop} {post' : α → σ → Prop} (triple : Triple pre program post)
    (before : ∀ s, pre' s → pre s) (after : ∀ value s, post value s → post' value s) :
    Triple pre' program post' :=
  fun s holds => after _ _ (triple s (before s holds))

/-- A fact that does not depend on the state. -/
theorem Triple.given {fact : Prop} (triple : fact → Triple pre program post) :
    Triple (fun s => fact ∧ pre s) program post :=
  fun s holds => triple holds.1 s holds.2

theorem Triple.exists {ι : Type*} {pre : ι → σ → Prop} (triple : ∀ i, Triple (pre i) program post) :
    Triple (fun s => ∃ i, pre i s) program post :=
  fun s ⟨i, holds⟩ => triple i s holds

/-- A fact that does not depend on the state is still true at the end. -/
theorem Triple.fact {fact : Prop} : Triple (fun _ => fact) program fun _ _ => fact :=
  fun _ holds => holds

/-- A loop over a list keeps an invariant that each of its iterations keeps. -/
theorem Triple.foldlM (inv : β → σ → Prop) {step : β → α → StateM σ β} {items : List α}
    (keeps : ∀ acc, ∀ item ∈ items, Triple (inv acc) (step acc item) inv) (acc : β) :
    Triple (inv acc) (items.foldlM step acc) inv := by
  induction items generalizing acc with
  | nil => exact Triple.pure fun _ holds => holds
  | cons item rest ih =>
    refine Triple.bind (keeps acc item List.mem_cons_self) fun next => ?_
    exact ih (fun acc item member => keeps acc item (List.mem_cons_of_mem _ member)) next

/-! ### Two programs side by side -/

/-- Started in related states, both programs return the same result in related states. -/
def Related (rel : σ → τ → Prop) (left : StateM σ α) (right : StateM τ α) : Prop :=
  ∀ s t, rel s t →
    (left.run s).1 = (right.run t).1 ∧ rel (left.run s).2 (right.run t).2

theorem Related.pure (rel : σ → τ → Prop) (value : α) :
    Related rel (Pure.pure value : StateM σ α) (Pure.pure value : StateM τ α) :=
  fun _ _ related => ⟨rfl, related⟩

theorem Related.bind {rel : σ → τ → Prop} {first' : StateM τ α} {next' : α → StateM τ β}
    (head : Related rel first first') (tail : ∀ value, Related rel (next value) (next' value)) :
    Related rel (first >>= next) (first' >>= next') := by
  intro s t related
  obtain ⟨same, after⟩ := head s t related
  have right : (first' >>= next').run t = (next' (first.run s).1).run (first'.run t).2 := by
    rw [same]
    rfl
  rw [right]
  exact tail (first.run s).1 _ _ after

end StateProgram
