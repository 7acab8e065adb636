/-
**Logs of frames.**

A log is a text made of frames, read one after the other by a `Reader`; each frame's item takes the
state one step further. `Frames reader text item` says that `text` is one complete frame: it is read
whatever follows it, and any proper beginning of it is recognised as torn.

* `scan_frames` — complete frames are folded, in order, and counted.
* `scan_take` — a log cut anywhere is read up to its last complete frame, and the remainder, if
  any, is reported as torn.
* `scan_damaged` — a scan that meets an unreadable frame fails, whatever came before it.
-/

import Sider.Lib.Bytes
import Mathlib.Data.List.TakeDrop

namespace FrameLog

variable {valid : Nat} {input text rest : Bytes} {texts : List Bytes}

/-- What a reader finds at its position. -/
inductive Next (ρ : Type) where
  | done
  | torn
  | item (item : ρ) (rest : Bytes)

/-- A reader of frames: every item it returns has consumed something. -/
structure Reader (ε ρ : Type) where
  read : Bytes → Except ε (Next ρ)
  shrinks : ∀ {input item rest}, read input = .ok (.item item rest) → rest.length < input.length

variable {ε ρ σ : Type}

/-- The state after the items of a log, how many bytes they take, and whether the log ends inside a
frame. -/
def scan (reader : Reader ε ρ) (step : σ → ρ → Except ε σ) (state : σ) (valid : Nat)
    (input : Bytes) : Except ε (σ × Nat × Bool) :=
  match _found : reader.read input with
  | .error error => .error error
  | .ok .done => .ok (state, valid, false)
  | .ok .torn => .ok (state, valid, true)
  | .ok (.item item rest) =>
    match step state item with
    | .error error => .error error
    | .ok next => scan reader step next (valid + (input.length - rest.length)) rest
termination_by input.length
decreasing_by exact reader.shrinks _found

/-- One complete frame. -/
structure Frames (reader : Reader ε ρ) (text : Bytes) (item : ρ) : Prop where
  reads : ∀ rest, reader.read (text ++ rest) = .ok (.item item rest)
  torn : ∀ cut, cut <+: text → cut ≠ [] → cut ≠ text → reader.read cut = .ok .torn
  done : reader.read [] = .ok .done

variable {reader : Reader ε ρ} (step : σ → ρ → Except ε σ)

theorem Frames.nonempty {item : ρ} (frames : Frames reader text item) : 0 < text.length := by
  have shorter := reader.shrinks (frames.reads [])
  simpa using shorter

/-- The reader with its errors wrapped. -/
def Reader.mapError {ε' : Type} (reader : Reader ε ρ) (wrap : ε → ε') : Reader ε' ρ where
  read input := (reader.read input).mapError wrap
  shrinks {input item rest} found := by
    cases read : reader.read input with
    | error error => rw [read] at found; cases found
    | ok next =>
      rw [read] at found
      cases found
      exact reader.shrinks read

theorem Frames.mapError {ε' : Type} {item : ρ} (frames : Frames reader text item) (wrap : ε → ε') :
    Frames (reader.mapError wrap) text item where
  reads rest := congrArg (Except.mapError wrap) (frames.reads rest)
  torn cut begins filled whole := congrArg (Except.mapError wrap) (frames.torn cut begins filled whole)
  done := congrArg (Except.mapError wrap) frames.done

theorem scan_done {state : σ} (found : reader.read input = .ok .done) :
    scan reader step state valid input = .ok (state, valid, false) := by
  rw [scan]
  split <;> simp_all

theorem scan_torn {state : σ} (found : reader.read input = .ok .torn) :
    scan reader step state valid input = .ok (state, valid, true) := by
  rw [scan]
  split <;> simp_all

theorem scan_error {state : σ} {error : ε} (found : reader.read input = .error error) :
    scan reader step state valid input = .error error := by
  rw [scan]
  split <;> simp_all

theorem scan_item {state : σ} {item : ρ} (found : reader.read input = .ok (.item item rest)) :
    scan reader step state valid input = (step state item >>= fun next =>
      scan reader step next (valid + (input.length - rest.length)) rest) := by
  rw [scan]
  split
  · simp_all
  · simp_all
  · simp_all
  · rename_i other left found'
    obtain ⟨rfl, rfl⟩ : item = other ∧ rest = left := by simpa [found'] using found.symm
    cases step state item <;> rfl

/-- **Complete frames are folded.** -/
theorem scan_frames {frames : List (Bytes × ρ)}
    (complete : ∀ frame ∈ frames, Frames reader frame.1 frame.2) (state : σ) (valid : Nat)
    (rest : Bytes) :
    scan reader step state valid ((frames.map Prod.fst).flatten ++ rest) =
      ((frames.map Prod.snd).foldlM step state >>= fun next =>
        scan reader step next (valid + (frames.map Prod.fst).flatten.length) rest) := by
  induction frames generalizing state valid with
  | nil => rfl
  | cons frame frames ih =>
    have later := fun frame member => complete frame (List.mem_cons_of_mem _ member)
    rw [List.map_cons, List.map_cons, List.flatten_cons, List.append_assoc,
      scan_item step ((complete frame (List.mem_cons_self ..)).reads _), List.foldlM_cons]
    cases step state frame.2 with
    | error error => rfl
    | ok next =>
      show scan reader step next _ _ = _
      rw [ih later]
      simp only [List.length_append]
      congr 1
      funext final
      congr 1
      omega

/-! ### A log cut anywhere -/

/-- How many of the texts end at or before a position. -/
def complete : List Bytes → Nat → Nat
  | [], _ => 0
  | text :: texts, position =>
    if text.length ≤ position then complete texts (position - text.length) + 1 else 0

theorem complete_le (texts : List Bytes) (position : Nat) : complete texts position ≤ texts.length := by
  induction texts generalizing position with
  | nil => exact le_rfl
  | cons text texts ih =>
    unfold complete
    split_ifs
    · exact Nat.succ_le_succ (ih _)
    · exact Nat.zero_le _

/-- The complete texts end at or before the position. -/
theorem length_complete_le (texts : List Bytes) (position : Nat) :
    (texts.take (complete texts position)).flatten.length ≤ position := by
  induction texts generalizing position with
  | nil => exact Nat.zero_le _
  | cons text texts ih =>
    unfold complete
    split_ifs with ends
    · have rest := ih (position - text.length)
      rw [List.take_succ_cons, List.flatten_cons, List.length_append]
      omega
    · exact Nat.zero_le _

/-- The next text, if there is one, ends after the position. -/
theorem lt_length_complete {position : Nat} (more : complete texts position < texts.length) :
    position < (texts.take (complete texts position + 1)).flatten.length := by
  induction texts generalizing position with
  | nil => cases more
  | cons text texts ih =>
    unfold complete at more ⊢
    split_ifs at more ⊢ with ends
    · have rest := ih (Nat.lt_of_succ_lt_succ more)
      rw [List.take_succ_cons, List.flatten_cons, List.length_append]
      omega
    · simpa using Nat.lt_of_not_le ends

/-- At the end of the first texts, exactly these are complete. -/
theorem complete_flatten (filled : ∀ text ∈ texts, 0 < text.length) {count : Nat}
    (inside : count ≤ texts.length) : complete texts (texts.take count).flatten.length = count := by
  induction texts generalizing count with
  | nil => exact (Nat.le_zero.mp inside).symm
  | cons text texts ih =>
    have positive := filled text (List.mem_cons_self ..)
    cases count with
    | zero =>
      unfold complete
      rw [List.take_zero, List.flatten_nil, List.length_nil, if_neg (by omega)]
    | succ count =>
      unfold complete
      rw [List.take_succ_cons, List.flatten_cons, List.length_append, if_pos (by omega),
        Nat.add_sub_cancel_left,
        ih (fun text member => filled text (List.mem_cons_of_mem _ member)) (Nat.le_of_succ_le_succ inside)]

/-- The reader at the cut: what is left of a log after its complete frames. -/
theorem read_remainder {frames : List (Bytes × ρ)}
    (each : ∀ frame ∈ frames, Frames reader frame.1 frame.2) (done : reader.read [] = .ok .done)
    (position : Nat) :
    ∃ remainder, (frames.map Prod.fst).flatten.take position =
        ((frames.map Prod.fst).take (complete (frames.map Prod.fst) position)).flatten ++ remainder ∧
      reader.read remainder = .ok (if remainder = [] then .done else .torn) := by
  induction frames generalizing position with
  | nil => exact ⟨[], by simp, done⟩
  | cons frame frames ih =>
    rw [List.map_cons, List.flatten_cons]
    unfold complete
    split_ifs with ends
    · obtain ⟨remainder, split, read⟩ :=
        ih (fun frame member => each frame (List.mem_cons_of_mem _ member)) (position - frame.1.length)
      refine ⟨remainder, ?_, read⟩
      rw [List.take_append, List.take_of_length_le ends, split, List.take_succ_cons,
        List.flatten_cons, List.append_assoc]
    · have short := Nat.lt_of_not_le ends
      refine ⟨frame.1.take position, ?_, ?_⟩
      · rw [List.take_append, Nat.sub_eq_zero_of_le short.le, List.take_zero, List.append_nil]
        rfl
      · split_ifs with empty
        · rw [empty]
          exact done
        · refine (each frame (List.mem_cons_self ..)).torn _ ⟨_, List.take_append_drop ..⟩ empty
            fun whole => ?_
          have sizes := congrArg List.length whole
          rw [List.length_take] at sizes
          omega

/-- **A log cut anywhere** is read up to its last complete frame. -/
theorem scan_take {frames : List (Bytes × ρ)}
    (each : ∀ frame ∈ frames, Frames reader frame.1 frame.2) (done : reader.read [] = .ok .done)
    (state : σ) (valid position : Nat) (inside : position ≤ (frames.map Prod.fst).flatten.length) :
    scan reader step state valid ((frames.map Prod.fst).flatten.take position) =
      (((frames.map Prod.snd).take (complete (frames.map Prod.fst) position)).foldlM step state >>=
        fun next =>
          let whole := ((frames.map Prod.fst).take (complete (frames.map Prod.fst) position)).flatten
          .ok (next, valid + whole.length, decide (whole.length < position))) := by
  obtain ⟨remainder, split, read⟩ := read_remainder each done position
  set count := complete (frames.map Prod.fst) position with isCount
  have sizes := congrArg List.length split
  rw [List.length_take, List.length_append, Nat.min_eq_left inside] at sizes
  rw [split, ← List.map_take, scan_frames step fun frame member => each frame (List.mem_of_mem_take member),
    List.map_take, List.map_take]
  congr 1
  funext next
  rw [← List.map_take] at sizes
  by_cases empty : remainder = []
  · rw [if_pos empty] at read
    rw [scan_done step read]
    simp [empty] at sizes
    simp [sizes]
  · rw [if_neg empty] at read
    rw [scan_torn step read]
    have positive := List.length_pos_of_ne_nil empty
    simp only [List.map_take] at sizes ⊢
    rw [decide_eq_true (by omega)]

/-- **An unreadable frame fails the scan.** -/
theorem scan_damaged {frames : List (Bytes × ρ)}
    (each : ∀ frame ∈ frames, Frames reader frame.1 frame.2) {damaged : Bytes} {error : ε}
    (unreadable : reader.read damaged = .error error) (state : σ) (valid : Nat) :
    ∃ error, scan reader step state valid ((frames.map Prod.fst).flatten ++ damaged) =
      .error error := by
  rw [scan_frames step each]
  cases (frames.map Prod.snd).foldlM step state with
  | error error => exact ⟨error, rfl⟩
  | ok next => exact ⟨error, scan_error step unreadable⟩

end FrameLog
