/-
**Rules for programs that can stop with an error.**

A program is an `ExceptT ε (StateM σ) α`: it changes a state, and returns a result or stops.
`Triple pre program post failed` says that from `pre` the program returns with `post` or stops with
`failed`. The rules follow the shape of a program; a loop over a list is proved with an invariant on
the items done so far. `Returns pre program value after` is the case of a program that returns a known
value.
-/

import Sider.Lib.StateProgram

namespace FailingProgram

variable {ε σ α β : Type} {next step : α → ExceptT ε (StateM σ) β}
  {first program : ExceptT ε (StateM σ) α}

variable {pre failed : σ → Prop} {post : α → σ → Prop} {items : List α}

/-- A run that returned satisfies `post`, one that stopped satisfies `failed`. -/
def Ends (post : α → σ → Prop) (failed : σ → Prop) : Except ε α × σ → Prop
  | (.ok value, t) => post value t
  | (.error _, t) => failed t

/-- From `pre`, the program returns with `post` or stops with `failed`. -/
def Triple (pre : σ → Prop) (program : ExceptT ε (StateM σ) α) (post : α → σ → Prop)
    (failed : σ → Prop) : Prop :=
  ∀ s, pre s → Ends post failed (program.run.run s)

/-- A program goes on from the result of its first part, if that returned. -/
theorem run_bind (first : ExceptT ε (StateM σ) α) (next : α → ExceptT ε (StateM σ) β) (s : σ) :
    ((first >>= next).run.run s : Except ε β × σ) =
      match (first.run.run s : Except ε α × σ) with
      | (.ok value, t) => (next value).run.run t
      | (.error error, t) => (.error error, t) := by
  show ExceptT.bindCont next (first.run.run s).1 (first.run.run s).2 = _
  rcases first.run.run s with ⟨_ | value, t⟩ <;> rfl

theorem Triple.pure {value : α} (holds : ∀ s, pre s → post value s) :
    Triple pre (Pure.pure value : ExceptT ε (StateM σ) α) post failed :=
  holds

theorem Triple.throw {error : ε} (holds : ∀ s, pre s → failed s) :
    Triple pre (MonadExcept.throw error : ExceptT ε (StateM σ) α) post failed :=
  holds

theorem Triple.bind {mid : α → σ → Prop} {post : β → σ → Prop} (head : Triple pre first mid failed)
    (tail : ∀ value, Triple (mid value) (next value) post failed) :
    Triple pre (first >>= next) post failed := by
  intro s holds
  have headed := head s holds
  rw [run_bind]
  revert headed
  rcases first.run.run s with ⟨_ | value, t⟩
  · exact fun headed => headed
  · exact fun headed => tail value t headed

/-- What follows a part that always stops is not reached. -/
theorem Triple.stops (head : Triple pre first (fun _ _ => False) failed) :
    Triple pre (first >>= next) (fun _ _ => False) failed :=
  head.bind fun _ _ none_ => none_.elim

theorem Triple.weaken {pre' failed' : σ → Prop} {post' : α → σ → Prop}
    (triple : Triple pre program post failed) (before : ∀ s, pre' s → pre s)
    (after : ∀ value s, post value s → post' value s) (stopped : ∀ s, failed s → failed' s) :
    Triple pre' program post' failed' := by
  intro s holds
  have outcome := triple s (before s holds)
  revert outcome
  rcases program.run.run s with ⟨_ | value, t⟩
  · exact stopped t
  · exact after value t

/-- More is known of how the program ends. -/
theorem Triple.imp {failed' : σ → Prop} {post' : α → σ → Prop} (triple : Triple pre program post failed)
    (after : ∀ value s, post value s → post' value s) (stopped : ∀ s, failed s → failed' s) :
    Triple pre program post' failed' :=
  triple.weaken (fun _ holds => holds) after stopped

theorem Triple.after {post' : α → σ → Prop} (triple : Triple pre program post failed)
    (after : ∀ value s, post value s → post' value s) : Triple pre program post' failed :=
  triple.imp after fun _ holds => holds

/-- A program whose error is caught. -/
theorem Triple.attempt (triple : Triple pre program post failed) :
    StateProgram.Triple pre program.run fun result t => Ends post failed (result, t) :=
  triple

/-- A program that does not stop returns. -/
theorem Triple.returns (triple : Triple pre program post fun _ => False) {s : σ} (holds : pre s) :
    ∃ value t, program.run.run s = (.ok value, t) ∧ post value t := by
  have ends := triple s holds
  revert ends
  rcases program.run.run s with ⟨_ | value, t⟩
  · exact False.elim
  · exact fun ends => ⟨value, t, rfl, ends⟩

/-- A fact that does not depend on the state. -/
theorem Triple.given {fact : Prop} (triple : fact → Triple pre program post failed) :
    Triple (fun s => fact ∧ pre s) program post failed :=
  fun s holds => triple holds.1 s holds.2

/-- A change of the state that cannot fail. -/
theorem Triple.change {post : Unit → σ → Prop} {change : σ → σ}
    (holds : ∀ s, pre s → post () (change s)) :
    Triple pre (modify change : ExceptT ε (StateM σ) Unit) post failed :=
  holds

/-- A loop keeps an invariant on the items done. -/
theorem Triple.forM (inv : List α → σ → Prop) {step : α → ExceptT ε (StateM σ) Unit}
    (keeps : ∀ done item rest, items = done ++ item :: rest →
      Triple (inv done) (step item) (fun _ => inv (done ++ [item])) failed) :
    Triple (inv []) (items.forM step) (fun _ => inv items) failed := by
  induction items generalizing inv with
  | nil => exact Triple.pure fun _ holds => holds
  | cons item rest ih =>
    refine Triple.bind (keeps [] item rest rfl) fun _ => ?_
    refine ih (fun done => inv (item :: done)) fun done next later split => ?_
    exact keeps (item :: done) next later (by rw [split]; rfl)

/-- In a loop over items with distinct keys, the next key is new. -/
theorem fresh_of_nodup {key : α → β} {done rest : List α} {item : α} (nodup : (items.map key).Nodup)
    (split : items = done ++ item :: rest) : key item ∉ done.map key := by
  rw [split, List.map_append, List.nodup_append] at nodup
  exact fun inside => nodup.2.2 _ inside _ List.mem_cons_self rfl

/-- A loop that collects results keeps an invariant on the items done and their results. -/
theorem Triple.mapM (inv : List α → List β → σ → Prop)
    (keeps : ∀ done results item rest, items = done ++ item :: rest →
      Triple (inv done results) (step item)
        (fun result => inv (done ++ [item]) (results ++ [result])) failed) :
    Triple (inv [] []) (items.mapM step) (inv items) failed := by
  induction items generalizing inv with
  | nil =>
    exact Triple.pure fun _ holds => holds
  | cons item rest ih =>
    rw [List.mapM_cons]
    refine Triple.bind (keeps [] [] item rest rfl) fun result => ?_
    have later := ih (fun done results => inv (item :: done) (result :: results))
      fun done results next later split =>
        keeps (item :: done) (result :: results) next later (by rw [split]; rfl)
    exact Triple.bind later fun more => Triple.pure fun _ holds => holds

/-! ### Programs with a known result -/

/-- From `pre`, the program returns `value`, with `after`. -/
def Returns (pre : σ → Prop) (program : ExceptT ε (StateM σ) α) (value : α) (after : σ → Prop) : Prop :=
  ∀ s, pre s → ∃ t, program.run.run s = (.ok value, t) ∧ after t

section Returns

variable {value : α} {result : β} {mid after : σ → Prop}

theorem Returns.pure (holds : ∀ s, pre s → after s) :
    Returns pre (Pure.pure value : ExceptT ε (StateM σ) α) value after :=
  fun s before => ⟨s, rfl, holds s before⟩

theorem Returns.bind (head : Returns pre first value mid) (tail : Returns mid (next value) result after) :
    Returns pre (first >>= next) result after := by
  intro s holds
  obtain ⟨t, ran, between⟩ := head s holds
  rw [run_bind, ran]
  exact tail t between

theorem Returns.triple (returns : Returns pre program value after) :
    Triple pre program (fun result t => result = value ∧ after t) failed := by
  intro s holds
  obtain ⟨t, ran, ends⟩ := returns s holds
  rw [ran]
  exact ⟨rfl, ends⟩

/-- A program whose error would be caught. -/
theorem Returns.attempt (returns : Returns pre program value after) :
    StateProgram.Triple pre program.run fun result t => result = .ok value ∧ after t := by
  intro s holds
  obtain ⟨t, ran, ends⟩ := returns s holds
  exact ⟨congrArg Prod.fst ran, (congrArg Prod.snd ran).symm ▸ ends⟩

theorem Returns.mapM {values : α → β} (inv : List α → σ → Prop)
    (keeps : ∀ done item rest, items = done ++ item :: rest →
      Returns (inv done) (step item) (values item) (inv (done ++ [item]))) :
    Returns (inv []) (items.mapM step) (items.map values) (inv items) := by
  induction items generalizing inv with
  | nil => exact .pure fun _ holds => holds
  | cons item rest ih =>
    rw [List.mapM_cons]
    refine (keeps [] item rest rfl).bind ((ih (fun done => inv (item :: done))
      fun done next later split => ?_).bind (.pure fun _ holds => holds))
    exact keeps (item :: done) next later (by rw [split]; rfl)

theorem Returns.forM (inv : List α → σ → Prop) {step : α → ExceptT ε (StateM σ) Unit}
    (keeps : ∀ done item rest, items = done ++ item :: rest →
      Returns (inv done) (step item) () (inv (done ++ [item]))) :
    Returns (inv []) (items.forM step) () (inv items) := by
  induction items generalizing inv with
  | nil => exact .pure fun _ holds => holds
  | cons item rest ih =>
    refine (keeps [] item rest rfl).bind (ih (fun done => inv (item :: done))
      fun done next later split => ?_)
    exact keeps (item :: done) next later (by rw [split]; rfl)

theorem Returns.allM (inv : List α → σ → Prop) {step : α → ExceptT ε (StateM σ) Bool}
    (keeps : ∀ done item rest, items = done ++ item :: rest →
      Returns (inv done) (step item) true (inv (done ++ [item]))) :
    Returns (inv []) (items.allM step) true (inv items) := by
  induction items generalizing inv with
  | nil => exact .pure fun _ holds => holds
  | cons item rest ih =>
    refine (keeps [] item rest rfl).bind (ih (fun done => inv (item :: done))
      fun done next later split => ?_)
    exact keeps (item :: done) next later (by rw [split]; rfl)

end Returns

end FailingProgram
