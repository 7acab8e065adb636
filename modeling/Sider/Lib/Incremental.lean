/-
**Incremental decoding.**

A scanner reads a text that only grows at its end. `step` looks at the text and a state and goes on, asks
for more text, completes or fails; `scan` repeats it. Under `Scanner.Lawful` — a step that does not ask
for more is not changed by text that comes later, and a step that asks for more can be taken up again —
a scan can be interrupted anywhere (`Scans.extends_`, `Scans.resumes`).

A decoder takes frames off the front of a buffer. `Session` is a decoder with its buffer, the frames so
far and the first error; text is appended and the decoder called in any order. Under
`Decoder.Lawful` only the text matters, not how it was cut (`fragmentation`).
-/

import Mathlib.Data.List.Basic
import Mathlib.Logic.Function.Iterate

namespace Incremental

/-! ### Scanners -/

section Scanners

variable {σ ε β : Type}

/-- What one step of a scanner does. -/
inductive Step (σ ε : Type) where
  | running (state : σ)
  | incomplete (state : σ)
  | complete (state : σ)
  | failed (error : ε)

/-- Repeat a step, at most `fuel` times. -/
def scan (step : List β → σ → Step σ ε) (text : List β) : Nat → σ → Step σ ε
  | 0, state => .running state
  | fuel + 1, state =>
    match step text state with
    | .running next => scan step text fuel next
    | result => result

/-- The step does not go on. -/
def Step.Stops : Step σ ε → Prop
  | .running _ => False
  | _ => True

/-- The scanner ends in `result`. -/
inductive Scans (step : List β → σ → Step σ ε) (text : List β) : σ → Step σ ε → Prop
  | stop {state : σ} {result : Step σ ε} (last : step text state = result) (stops : result.Stops) :
      Scans step text state result
  | next {state other : σ} {result : Step σ ε} (first : step text state = .running other)
      (rest : Scans step text other result) : Scans step text state result

/-- The rules of a scanner, for states that satisfy `inv` on the text read so far. -/
structure Scanner.Lawful (step : List β → σ → Step σ ε) (inv : List β → σ → Prop)
    (position : σ → Nat) : Prop where
  grows : ∀ {text state} (more : List β), inv text state → inv (text ++ more) state
  keeps : ∀ {text state next}, inv text state → step text state = .running next → inv text next
  rests : ∀ {text state next}, inv text state → step text state = .incomplete next → inv text next
  advances : ∀ {text state next}, inv text state → step text state = .running next →
    position state < position next ∧ position next ≤ text.length
  extends_ : ∀ {text state} (more : List β), inv text state →
    (∀ next, step text state ≠ .incomplete next) → step (text ++ more) state = step text state
  resumes : ∀ {text state next} (more : List β), inv text state →
    step text state = .incomplete next → step (text ++ more) next = step (text ++ more) state

variable {step : List β → σ → Step σ ε} {inv : List β → σ → Prop} {position : σ → Nat}
  {text : List β} {state : σ}

/-- A step that goes on goes on with more text as well. -/
theorem Scanner.Lawful.goes (lawful : Scanner.Lawful step inv position) (more : List β) {next : σ}
    (holds : inv text state) (first : step text state = .running next) :
    step (text ++ more) state = .running next := by
  rw [lawful.extends_ more holds fun _ other => (by cases first.symm.trans other), first]

theorem scan_step {next : σ} (fuel : Nat) (first : step text state = .running next) :
    scan step text (fuel + 1) state = scan step text fuel next := by
  rw [scan, first]

theorem scan_stop {result : Step σ ε} (fuel : Nat) (last : step text state = result)
    (stops : result.Stops) : scan step text (fuel + 1) state = result := by
  rw [scan, last]
  cases result with
  | running next => cases stops
  | _ => rfl

/-- With a step for every byte that is left, and one more, a scan ends. -/
theorem scan_scans (lawful : Scanner.Lawful step inv position) {fuel : Nat} (holds : inv text state)
    (enough : text.length ≤ fuel + position state) :
    Scans step text state (scan step text (fuel + 1) state) := by
  induction fuel generalizing state with
  | zero =>
    cases first : step text state with
    | running next =>
      obtain ⟨further, inside⟩ := lawful.advances holds first
      omega
    | _ =>
      rw [scan_stop 0 first trivial]
      exact .stop first trivial
  | succ fuel ih =>
    cases first : step text state with
    | running next =>
      obtain ⟨further, _⟩ := lawful.advances holds first
      rw [scan_step _ first]
      exact .next first (ih (lawful.keeps holds first) (by omega))
    | _ =>
      rw [scan_stop _ first trivial]
      exact .stop first trivial

theorem Scans.stops {result : Step σ ε} (scans : Scans step text state result) : result.Stops := by
  induction scans with
  | stop _ stops => exact stops
  | next _ _ ih => exact ih

theorem Scans.unique {first second : Step σ ε} (left : Scans step text state first)
    (right : Scans step text state second) : first = second := by
  induction left with
  | stop last stops =>
    cases right with
    | stop other _ => exact last.symm.trans other
    | next other _ => rw [← last, other] at stops; cases stops
  | next goes _ ih =>
    cases right with
    | stop other stops => rw [← other, goes] at stops; cases stops
    | next other rest =>
      rw [goes] at other
      cases other
      exact ih rest

variable (lawful : Scanner.Lawful step inv position)

include lawful

theorem Scans.scan_eq (holds : inv text state) {result : Step σ ε}
    (scans : Scans step text state result) : scan step text (text.length + 1) state = result :=
  (scan_scans lawful holds (Nat.le_add_right _ _)).unique scans

/-- A scan ends with a step from a state that satisfies the invariant. -/
theorem Scans.last {result : Step σ ε} (holds : inv text state)
    (scans : Scans step text state result) :
    ∃ final, inv text final ∧ step text final = result := by
  induction scans with
  | stop last _ => exact ⟨_, holds, last⟩
  | next first _ ih => exact ih (lawful.keeps holds first)

/-- **A scan that ended is not changed by what comes later.** -/
theorem Scans.extends_ (more : List β) {result : Step σ ε} (holds : inv text state)
    (scans : Scans step text state result) (ended : ∀ next, result ≠ .incomplete next) :
    Scans step (text ++ more) state result := by
  induction scans with
  | stop last stops =>
    refine .stop ?_ stops
    rw [lawful.extends_ more holds fun next same => ended next (last.symm.trans same), last]
  | next first _ ih =>
    exact .next (lawful.goes more holds first) (ih (lawful.keeps holds first) ended)

/-- **A scan that asked for more can be taken up again.** -/
theorem Scans.resumes (more : List β) {next : σ} {result : Step σ ε} (holds : inv text state)
    (scans : Scans step text state (.incomplete next))
    (later : Scans step (text ++ more) next result) : Scans step (text ++ more) state result := by
  generalize same : Step.incomplete next = reached at scans
  induction scans with
  | stop last _ =>
    have again := lawful.resumes more holds (last.trans same.symm)
    cases later with
    | stop other stops => exact .stop (again.symm.trans other) stops
    | next other rest => exact .next (again.symm.trans other) rest
  | next first _ ih =>
    exact .next (lawful.goes more holds first) (ih (lawful.keeps holds first) same)

end Scanners

/-! ### Decoders -/

section Decoders

variable {δ ε β α : Type}

/-- A call: what it returns, the decoder and the buffer it leaves. -/
abbrev Call (δ ε β α : Type) := Except ε (Option α) × δ × List β

/-- Two calls that differ at most in a decoder no later call can use. -/
def Alike (dead : δ → Prop) (first second : Call δ ε β α) : Prop :=
  first.1 = second.1 ∧ first.2.2 = second.2.2 ∧
    (first.2.1 = second.2.1 ∨ dead first.2.1 ∧ dead second.2.1)

/-- The rules of a decoder: `inv` relates it to its buffer, `dead` is a decoder that has failed. -/
structure Decoder.Lawful (decode : δ → List β → Call δ ε β α) (inv : List β → δ → Prop)
    (dead : δ → Prop) : Prop where
  grows : ∀ {buffer d} (more : List β), inv buffer d → inv (buffer ++ more) d
  incomplete : ∀ {buffer d d' rest}, inv buffer d → decode d buffer = (.ok none, d', rest) →
    rest = buffer ∧ inv buffer d' ∧
      ∀ more, Alike dead (decode d' (buffer ++ more)) (decode d (buffer ++ more))
  frame : ∀ {buffer d d' rest frame}, inv buffer d → decode d buffer = (.ok (some frame), d', rest) →
    rest.length < buffer.length ∧ inv rest d' ∧
      ∀ more, decode d (buffer ++ more) = (.ok (some frame), d', rest ++ more)
  failed : ∀ {buffer d d' rest error}, inv buffer d → decode d buffer = (.error error, d', rest) →
    rest = buffer ∧ dead d' ∧
      ∀ more, ∃ d'', decode d (buffer ++ more) = (.error error, d'', buffer ++ more) ∧ dead d''
  alive : ∀ {buffer d}, inv buffer d → ¬dead d
  dead : ∀ {d} buffer, dead d → ∃ error d', decode d buffer = (.error error, d', buffer) ∧ dead d'

/-- A decoder with its buffer, the frames it has returned and its first error. -/
structure Session (δ ε β α : Type) where
  decoder : δ
  buffer : List β
  frames : List α
  error : Option ε

/-- What can be done with a session. -/
inductive Operation (β : Type) where
  | append (chunk : List β)
  | decode

namespace Session

variable (decode : δ → List β → Call δ ε β α)

def append (s : Session δ ε β α) (chunk : List β) : Session δ ε β α :=
  { s with buffer := s.buffer ++ chunk }

/-- One call of the decoder. -/
def call (s : Session δ ε β α) : Session δ ε β α :=
  match decode s.decoder s.buffer with
  | (.ok none, decoder, buffer) => ⟨decoder, buffer, s.frames, s.error⟩
  | (.ok (some frame), decoder, buffer) => ⟨decoder, buffer, s.frames ++ [frame], s.error⟩
  | (.error error, decoder, buffer) => ⟨decoder, buffer, s.frames, s.error.or (some error)⟩

def perform (s : Session δ ε β α) : Operation β → Session δ ε β α
  | .append chunk => s.append chunk
  | .decode => s.call decode

def run (s : Session δ ε β α) (operations : List (Operation β)) : Session δ ε β α :=
  operations.foldl (perform decode) s

/-- Call the decoder as often as the buffer can hold frames, and once more. -/
def drain (s : Session δ ε β α) : Session δ ε β α :=
  (call decode)^[s.buffer.length + 1] s

/-- What a session has produced and left. -/
def observed (s : Session δ ε β α) : List α × Option ε × List β :=
  (s.frames, s.error, s.buffer)

end Session

/-- The text that some operations append. -/
def chunks : List (Operation β) → List β
  | [] => []
  | .append chunk :: operations => chunk ++ chunks operations
  | .decode :: operations => chunks operations

namespace Session

variable {decode : δ → List β → Call δ ε β α} {inv : List β → δ → Prop} {dead : δ → Prop}
  {s t : Session δ ε β α}

/-- The decoder can go on, or it has failed and the error is recorded. -/
def Valid (inv : List β → δ → Prop) (dead : δ → Prop) (s : Session δ ε β α) : Prop :=
  (inv s.buffer s.decoder ∧ s.error = none) ∨ (dead s.decoder ∧ s.error.isSome)

/-- Equal but for decoders that have failed. -/
def Twin (dead : δ → Prop) (s t : Session δ ε β α) : Prop :=
  observed s = observed t ∧ (s.decoder = t.decoder ∨ dead s.decoder ∧ dead t.decoder)

/-- From some call on, this is what is observed. -/
def Settles (decode : δ → List β → Call δ ε β α) (s : Session δ ε β α)
    (outcome : List α × Option ε × List β) : Prop :=
  ∃ least, ∀ count, least ≤ count → observed ((call decode)^[count] s) = outcome

theorem observed_eq : observed s = observed t ↔
    s.frames = t.frames ∧ s.error = t.error ∧ s.buffer = t.buffer := by
  simp [observed]

/-- The same call and the same past. -/
theorem call_twin {s t : Session δ ε β α} (frames : s.frames = t.frames) (error : s.error = t.error)
    (alike : Alike dead (decode s.decoder s.buffer) (decode t.decoder t.buffer)) :
    Twin dead (s.call decode) (t.call decode) := by
  unfold call
  generalize decode s.decoder s.buffer = first at alike
  generalize decode t.decoder t.buffer = second at alike
  obtain ⟨first, d, rest⟩ := first
  obtain ⟨second, d', rest'⟩ := second
  obtain ⟨results, buffers, decoders⟩ := alike
  obtain rfl : first = second := results
  obtain rfl : rest = rest' := buffers
  rcases first with failure | _ | frame <;> exact ⟨by simp [observed, frames, error], decoders⟩

section

variable (lawful : Decoder.Lawful decode inv dead)

include lawful

/-- A call on a failed decoder whose error is recorded changes nothing observable. -/
theorem call_dead (failed : dead s.decoder) (recorded : s.error.isSome) :
    observed (s.call decode) = observed s ∧ dead (s.call decode).decoder := by
  obtain ⟨error, d', called, still⟩ := lawful.dead s.buffer failed
  obtain ⟨first, same⟩ := Option.isSome_iff_exists.mp recorded
  unfold call
  rw [called]
  exact ⟨by simp [observed, same], still⟩

/-- A failed decoder has its error recorded. -/
theorem Valid.recorded (valid : Valid inv dead s) (failed : dead s.decoder) : s.error.isSome :=
  valid.elim (fun ⟨holds, _⟩ => absurd failed (lawful.alive holds)) fun ⟨_, recorded⟩ => recorded

theorem Twin.call (valid : Valid inv dead s) (twin : Twin dead s t) :
    Twin dead (s.call decode) (t.call decode) := by
  obtain ⟨same, decoders⟩ := twin
  obtain ⟨frames, error, buffer⟩ := observed_eq.mp same
  rcases decoders with equal | ⟨left, right⟩
  · refine call_twin frames error ?_
    rw [equal, buffer]
    exact ⟨rfl, rfl, .inl rfl⟩
  · have recorded := valid.recorded lawful left
    obtain ⟨first, still⟩ := call_dead lawful left recorded
    obtain ⟨second, still'⟩ := call_dead lawful right (error ▸ recorded)
    exact ⟨first.trans (same.trans second.symm), .inr ⟨still, still'⟩⟩

end

theorem Twin.append (twin : Twin dead s t) (chunk : List β) :
    Twin dead (s.append chunk) (t.append chunk) := by
  obtain ⟨same, decoders⟩ := twin
  obtain ⟨frames, error, buffer⟩ := observed_eq.mp same
  exact ⟨observed_eq.mpr ⟨frames, error, congrArg (· ++ chunk) buffer⟩, decoders⟩

/-! ### Sessions that go on -/

section

variable (lawful : Decoder.Lawful decode inv dead)

include lawful

/-- What one call does to a session that can go on. -/
theorem call_cases (holds : inv s.buffer s.decoder) (calm : s.error = none) :
    (∃ d', decode s.decoder s.buffer = (.ok none, d', s.buffer) ∧
        s.call decode = { s with decoder := d' }) ∨
      (∃ frame d' rest, decode s.decoder s.buffer = (.ok (some frame), d', rest) ∧
        s.call decode = ⟨d', rest, s.frames ++ [frame], none⟩) ∨
      ∃ error d', decode s.decoder s.buffer = (.error error, d', s.buffer) ∧ dead d' ∧
        s.call decode = ⟨d', s.buffer, s.frames, some error⟩ := by
  unfold call
  rcases result : decode s.decoder s.buffer with ⟨_ | _ | frame, d', rest⟩
  · obtain ⟨rfl, failed, _⟩ := lawful.failed holds result
    exact .inr (.inr ⟨_, d', rfl, failed, by simp [calm]⟩)
  · obtain ⟨rfl, _⟩ := lawful.incomplete holds result
    exact .inl ⟨d', rfl, rfl⟩
  · exact .inr (.inl ⟨frame, d', rest, rfl, by simp [calm]⟩)

variable (valid : Valid inv dead s)

include valid

theorem Valid.append (chunk : List β) : Valid inv dead (s.append chunk) :=
  valid.imp (fun ⟨holds, calm⟩ => ⟨lawful.grows chunk holds, calm⟩) fun failed => failed

theorem Valid.call : Valid inv dead (s.call decode) := by
  rcases valid with ⟨holds, calm⟩ | ⟨failed, recorded⟩
  · rcases call_cases lawful holds calm with ⟨d', called, shape⟩ | ⟨frame, d', rest, called, shape⟩ |
      ⟨error, d', called, failed, shape⟩
    · rw [shape]
      exact .inl ⟨(lawful.incomplete holds called).2.1, calm⟩
    · rw [shape]
      exact .inl ⟨(lawful.frame holds called).2.1, rfl⟩
    · rw [shape]
      exact .inr ⟨failed, rfl⟩
  · obtain ⟨same, still⟩ := call_dead lawful failed recorded
    exact .inr ⟨still, (observed_eq.mp same).2.1 ▸ recorded⟩

theorem Valid.run (operations : List (Operation β)) : Valid inv dead (s.run decode operations) := by
  induction operations generalizing s with
  | nil => exact valid
  | cons operation others ih =>
    cases operation with
    | append chunk => exact ih (valid.append lawful chunk)
    | decode => exact ih (valid.call lawful)

theorem Twin.settles (twin : Twin dead s t) {outcome : List α × Option ε × List β} :
    Settles decode s outcome ↔ Settles decode t outcome := by
  have same : ∀ count, observed ((Session.call decode)^[count] s) =
      observed ((Session.call decode)^[count] t) := by
    intro count
    induction count generalizing s t with
    | zero => exact twin.1
    | succ count ih => exact ih (valid.call lawful) (twin.call lawful valid)
  simp only [Settles, same]

end

/-- One more call at the start does not matter. -/
theorem settles_call {outcome : List α × Option ε × List β} :
    Settles decode (s.call decode) outcome ↔ Settles decode s outcome := by
  constructor
  · rintro ⟨least, settled⟩
    refine ⟨least + 1, fun count enough => ?_⟩
    obtain ⟨before, rfl⟩ := Nat.exists_eq_add_of_le' (show 1 ≤ count by omega)
    exact settled before (by omega)
  · rintro ⟨least, settled⟩
    exact ⟨least, fun count enough => settled (count + 1) (by omega)⟩

section

variable (lawful : Decoder.Lawful decode inv dead)

include lawful

/-- No call finds anything new: the text holds no further frame, or the decoder has failed. -/
def Idle (decode : δ → List β → Call δ ε β α) (inv : List β → δ → Prop) (dead : δ → Prop)
    (s : Session δ ε β α) : Prop :=
  (inv s.buffer s.decoder ∧ s.error = none ∧ (decode s.decoder s.buffer).1 = .ok none) ∨
    (dead s.decoder ∧ s.error.isSome)

theorem Idle.call (idle : Idle decode inv dead s) :
    observed (s.call decode) = observed s ∧ Idle decode inv dead (s.call decode) := by
  rcases idle with ⟨holds, calm, nothing⟩ | ⟨failed, recorded⟩
  · rcases call_cases lawful holds calm with ⟨d', called, shape⟩ | ⟨frame, d', rest, called, _⟩ |
      ⟨error, d', called, _, _⟩
    · obtain ⟨_, still, alike⟩ := lawful.incomplete holds called
      have again := alike []
      rw [List.append_nil, called] at again
      rw [shape]
      exact ⟨rfl, .inl ⟨still, calm, again.1⟩⟩
    · rw [called] at nothing
      cases nothing
    · rw [called] at nothing
      cases nothing
  · obtain ⟨same, still⟩ := call_dead lawful failed recorded
    exact ⟨same, .inr ⟨still, (observed_eq.mp same).2.1 ▸ recorded⟩⟩

theorem Idle.iterate (idle : Idle decode inv dead s) (count : Nat) :
    observed ((Session.call decode)^[count] s) = observed s ∧
      Idle decode inv dead ((Session.call decode)^[count] s) := by
  induction count generalizing s with
  | zero => exact ⟨rfl, idle⟩
  | succ count ih =>
    obtain ⟨same, still⟩ := idle.call lawful
    obtain ⟨later, end_⟩ := ih still
    exact ⟨later.trans same, end_⟩

variable (valid : Valid inv dead s)

include valid

/-- **A call before the next chunk does not matter.** -/
theorem settles_append_call (chunk : List β) {outcome : List α × Option ε × List β} :
    Settles decode ((s.call decode).append chunk) outcome ↔
      Settles decode (s.append chunk) outcome := by
  have appended := valid.append lawful chunk
  rcases valid with ⟨holds, calm⟩ | ⟨failed, recorded⟩
  · rcases call_cases lawful holds calm with ⟨d', called, shape⟩ | ⟨frame, d', rest, called, shape⟩ |
      ⟨error, d', called, failed, shape⟩
    · -- the scan is taken up again where it stopped
      have alike := (lawful.incomplete holds called).2.2 chunk
      have twin : Twin dead (((s.call decode).append chunk).call decode)
          ((s.append chunk).call decode) := by
        rw [shape]
        exact call_twin rfl rfl alike
      have valid : Valid inv dead (((s.call decode).append chunk).call decode) := by
        rw [shape]
        refine Valid.call lawful (.inl ⟨lawful.grows chunk (lawful.incomplete holds called).2.1, calm⟩)
      rw [← settles_call, twin.settles lawful valid, settles_call]
    · -- the frame was complete without the chunk
      have later := (lawful.frame holds called).2.2 chunk
      have same : (s.append chunk).call decode = (s.call decode).append chunk := by
        rw [shape]
        show Session.call decode ⟨s.decoder, s.buffer ++ chunk, s.frames, s.error⟩ = _
        unfold Session.call
        simp only [later, calm]
        rfl
      rw [← same, settles_call]
    · obtain ⟨d'', later, failed'⟩ := (lawful.failed holds called).2.2 chunk
      have twin : Twin dead ((s.append chunk).call decode) ((s.call decode).append chunk) := by
        rw [shape]
        show Twin dead (Session.call decode ⟨s.decoder, s.buffer ++ chunk, s.frames, s.error⟩) _
        unfold Session.call
        simp only [later, calm]
        exact ⟨rfl, .inr ⟨failed', failed⟩⟩
      rw [← twin.settles lawful (appended.call lawful), settles_call]
  · obtain ⟨same, still⟩ := call_dead lawful failed recorded
    have twin : Twin dead (s.call decode) s := ⟨same, .inr ⟨still, failed⟩⟩
    exact (twin.append chunk).settles lawful
      ((Valid.call lawful (.inr ⟨failed, recorded⟩)).append lawful chunk)

/-- **A run settles as its text delivered at once does.** -/
theorem settles_run (operations : List (Operation β)) {outcome : List α × Option ε × List β} :
    Settles decode (s.run decode operations) outcome ↔
      Settles decode (s.append (chunks operations)) outcome := by
  induction operations generalizing s with
  | nil =>
    have same : s.append [] = s := by simp [Session.append]
    rw [chunks, same]
    rfl
  | cons operation others ih =>
    cases operation with
    | append chunk =>
      have joined : (s.append chunk).append (chunks others) = s.append (chunk ++ chunks others) := by
        simp [Session.append]
      rw [chunks, ← joined]
      exact ih (valid.append lawful chunk)
    | decode => exact (ih (valid.call lawful)).trans (settles_append_call lawful valid _)

/-- With a call for every byte of the buffer, and one more, nothing new is left. -/
theorem idle_after {count : Nat} (enough : s.buffer.length < count) :
    Idle decode inv dead ((Session.call decode)^[count] s) := by
  induction count generalizing s with
  | zero => omega
  | succ count ih =>
    rcases valid with ⟨holds, calm⟩ | ⟨failed, recorded⟩
    · rcases call_cases lawful holds calm with ⟨d', called, _⟩ | ⟨frame, d', rest, called, shape⟩ |
        ⟨error, d', _, failed, shape⟩
      · have idle : Idle decode inv dead s := .inl ⟨holds, calm, by rw [called]⟩
        exact ((idle.call lawful).2.iterate lawful count).2
      · obtain ⟨shorter, next, _⟩ := lawful.frame holds called
        refine ih ?_ ?_
        · rw [shape]
          exact .inl ⟨next, rfl⟩
        · rw [shape]
          show rest.length < count
          omega
      · refine (Idle.iterate lawful (.inr ?_) count).2
        rw [shape]
        exact ⟨failed, rfl⟩
    · have idle : Idle decode inv dead s := .inr ⟨failed, recorded⟩
      exact ((idle.call lawful).2.iterate lawful count).2

theorem settles_drain : Settles decode s (observed (s.drain decode)) := by
  refine ⟨s.buffer.length + 1, fun count enough => ?_⟩
  obtain ⟨extra, rfl⟩ := Nat.exists_eq_add_of_le' enough
  rw [Function.iterate_add_apply]
  exact ((idle_after lawful valid (Nat.lt_succ_self _)).iterate lawful extra).1

end

theorem Settles.unique {first second : List α × Option ε × List β} (left : Settles decode s first)
    (right : Settles decode s second) : first = second := by
  obtain ⟨least, settled⟩ := left
  obtain ⟨other, settled'⟩ := right
  exact (settled (max least other) (Nat.le_max_left ..)).symm.trans
    (settled' (max least other) (Nat.le_max_right ..))

/-- Frames returned earlier stay in front. -/
theorem call_earlier (s : Session δ ε β α) (earlier : List α) :
    Session.call decode { s with frames := earlier ++ s.frames } =
      { s.call decode with frames := earlier ++ (s.call decode).frames } := by
  unfold Session.call
  rcases decode s.decoder s.buffer with ⟨_ | _ | frame, _, _⟩
  · rfl
  · rfl
  · simp

theorem settles_earlier {frames : List α} {rest : Option ε × List β} (earlier : List α)
    (settles : Settles decode s (frames, rest)) :
    Settles decode { s with frames := earlier ++ s.frames } (earlier ++ frames, rest) := by
  obtain ⟨least, settled⟩ := settles
  have shifted : ∀ count (s : Session δ ε β α), (Session.call decode)^[count]
      { s with frames := earlier ++ s.frames } =
      { (Session.call decode)^[count] s with
        frames := earlier ++ ((Session.call decode)^[count] s).frames } := by
    intro count
    induction count with
    | zero => exact fun _ => rfl
    | succ count ih =>
      intro s
      rw [Function.iterate_succ_apply, Function.iterate_succ_apply, call_earlier]
      exact ih (s.call decode)
  refine ⟨least, fun count enough => ?_⟩
  have before := settled count enough
  rw [shifted]
  cases before
  rfl

/-- **Fragmentation independence.** Two sequences of operations that append the same text produce the
same frames and the same first error, and leave the same bytes, once the decoder has been called often
enough at the end. -/
theorem fragmentation (lawful : Decoder.Lawful decode inv dead) (valid : Valid inv dead s)
    {first second : List (Operation β)} (same : chunks first = chunks second) :
    observed ((s.run decode first).drain decode) = observed ((s.run decode second).drain decode) := by
  have left := settles_drain lawful (valid.run lawful first)
  have right := settles_drain lawful (valid.run lawful second)
  rw [settles_run lawful valid] at left right
  rw [same] at left
  exact left.unique right

end Session

end Decoders

end Incremental
