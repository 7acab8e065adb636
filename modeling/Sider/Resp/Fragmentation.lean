/-
**Fragmentation independence of the decoder.**

A completed scan stands for one frame, which `materialize` builds (`materialize_heads`). With that, the
decoder obeys the rules of an incremental decoder (`decode_lawful`): the frames it returns, its first error
and the bytes it leaves depend on the text alone and not on how it was cut.
-/

import Sider.Resp.Scan

namespace Sider.Resp

open Incremental

variable {nodes tail : List Node} {heads : List Head} {frame : Frame}

variable {finite : Bytes → Bool} {limits : RespLimits} {src : Bytes}

/-! ### Building the frame -/

/-- The nodes of a frame build it in front of what was built before. -/
theorem assemble_heads (frame : Frame) {frames : List Frame}
    (resolved : List.Forall₂ (fun (node : Node) head => node.head src = .ok head) nodes frame.heads)
    (before : assemble src tail = .ok frames) :
    assemble src (nodes ++ tail) = .ok (frame :: frames) := by
  induction frame using Frame.induct generalizing nodes tail frames with
  | leaf value =>
    cases resolved with
    | cons here rest =>
      cases rest
      simp only [List.cons_append, List.nil_append, assemble, before, here, ok_bind]
      rfl
  | aggregate kind items ih =>
    rw [Frame.heads_eq] at resolved
    cases resolved with
    | @cons node _ others _ here rest =>
      have elements : ∀ (inner : List Frame) (nodes : List Node), (∀ item ∈ inner, item ∈ items) →
          List.Forall₂ (fun (node : Node) head => node.head src = .ok head) nodes
            (inner.flatMap Frame.heads) →
          assemble src (nodes ++ tail) = .ok (inner ++ frames) := by
        intro inner
        induction inner with
        | nil =>
          intro nodes _ resolved
          cases resolved
          exact before
        | cons item inner more =>
          intro nodes inside resolved
          have first := List.forall₂_take_append _ _ _ resolved
          have second := List.forall₂_drop_append _ _ _ resolved
          rw [← List.take_append_drop item.heads.length nodes, List.append_assoc]
          exact ih item (inside item List.mem_cons_self) first
            (more _ (fun other member => inside other (List.mem_cons_of_mem _ member)) second)
      have inner := elements items others (fun _ member => member) rest
      rw [List.cons_append, assemble, inner, ok_bind, here, ok_bind]
      show (if (items ++ frames).length < items.length then _ else _) = _
      simp

/-- **The nodes of a frame build that frame.** -/
theorem materialize_heads
    (resolved : List.Forall₂ (fun (node : Node) head => node.head src = .ok head) nodes frame.heads) :
    materialize src nodes = .ok frame := by
  have built := assemble_heads frame resolved (show assemble src [] = .ok [] from rfl)
  rw [List.append_nil] at built
  unfold materialize
  rw [built]
  rfl

/-! ### Text that comes later -/

theorem head_append {node : Node} {head : Head} (more : Bytes) (resolved : node.head src = .ok head) :
    node.head (src ++ more) = .ok head := by
  have slice : ∀ {payload : Payload} {next : Bytes → Except Failure Head},
      (payloadSlice src payload >>= next) = .ok head →
      (payloadSlice (src ++ more) payload >>= next) = .ok head := by
    intro payload next found
    obtain ⟨bytes, sliced, _⟩ := bind_eq_ok_iff.mp found
    rw [payloadSlice_append (payloadSlice_eq_ok.mp sliced).1.2]
    exact found
  cases node with
  | simple payload | error payload | scalar kind payload => exact slice resolved
  | bulk payload =>
    cases payload with
    | none => exact resolved
    | some payload => exact slice resolved
  | array length kind => cases length <;> exact resolved
  | integer value | null | boolean value => exact resolved

theorem resolved_append (more : Bytes)
    (resolved : List.Forall₂ (fun (node : Node) head => node.head src = .ok head) nodes heads) :
    List.Forall₂ (fun (node : Node) head => node.head (src ++ more) = .ok head) nodes heads :=
  resolved.imp fun _ _ => head_append more

variable {s : Scanner}

theorem Reading.grows (reading : Reading finite limits src s heads) (more : Bytes) :
    Reading finite limits (src ++ more) s heads := by
  obtain ⟨track, bounded, current⟩ := reading
  refine ⟨{ track with resolved := resolved_append more track.resolved },
    by rw [List.length_append]; omega, ?_⟩
  unfold Current at current ⊢
  cases state : s.state with
  | prefixByte =>
    rw [state] at current
    exact current
  | line line =>
    rw [state] at current
    obtain ⟨begun, size, start, deep, stop, ordered, reached, text⟩ := current
    refine ⟨begun, size, start, deep, stop, ordered, reached, ?_⟩
    rw [List.drop_append_of_le_length (by omega), List.take_append_of_le_length]
    · exact text
    · rw [List.length_drop]
      omega
  | bulk payload sawCr kind =>
    rw [state] at current
    exact current

/-- **The scanner obeys the rules of an incremental scanner.** -/
theorem step_lawful : Scanner.Lawful (Scanner.step finite)
    (fun src s => ∃ heads, Reading finite limits src s heads) Scanner.cursor where
  grows more := fun ⟨heads, reading⟩ => ⟨heads, reading.grows more⟩
  keeps := fun ⟨_, reading⟩ goes => by
    have sound := step_sound reading
    rw [goes] at sound
    exact sound.2
  rests := fun ⟨heads, reading⟩ asks => by
    have sound := step_sound reading
    rw [asks] at sound
    exact ⟨heads, sound⟩
  advances := fun ⟨_, reading⟩ goes => by
    have sound := step_sound reading
    rw [goes] at sound
    obtain ⟨further, _, next⟩ := sound
    exact ⟨further, next.bounded⟩
  extends_ more := fun _ content => step_append more content
  resumes more := fun _ asks => step_resume more asks

/-- How a scan under the invariant ends. -/
theorem scan_cases (reading : Reading finite limits src s heads) :
    (∃ next heads, Reading finite limits src next heads ∧
        Scans (Scanner.step finite) src s (.incomplete next)) ∨
      (∃ next frame, Scanned finite limits src next (Frame.heads frame) ∧ frame.Fits finite limits ∧
        0 < next.cursor ∧ Scans (Scanner.step finite) src s (.complete next)) ∨
      ∃ failure, failure ≠ .panic ∧ Scans (Scanner.step finite) src s (.failed failure) := by
  have scans := scan_scans step_lawful ⟨heads, reading⟩ (Nat.le_add_right src.length _)
  obtain ⟨final, ⟨heads, reading⟩, last⟩ := scans.last step_lawful ⟨heads, reading⟩
  have sound := step_sound reading
  rw [last] at sound
  generalize scan (Scanner.step finite) src (src.length + 1) s = result at scans sound
  cases result with
  | running next => cases scans.stops
  | incomplete next => exact .inl ⟨next, heads, sound, scans⟩
  | complete next =>
    obtain ⟨further, heads, scanned⟩ := sound
    obtain ⟨frame, rfl, depth⟩ := frame_of_waits scanned.levels
    exact .inr (.inl ⟨next, frame, scanned, ⟨scanned.fits, depth, scanned.budget,
      scanned.size.trans scanned.small⟩, by omega, scans⟩)
  | failed failure => exact .inr (.inr ⟨failure, sound, scans⟩)

/-! ### Calls -/

/-- The decoder has not failed and belongs to its buffer. -/
structure Attached (finite : Bytes → Bool) (limits : RespLimits) (src : Bytes) (d : Decoder) : Prop where
  alive : d.poisoned = false
  whole : d.previousLen ≤ src.length
  reads : ∃ heads, Reading finite limits src d.scanner heads

variable {d : Decoder} {next : Scanner}

section

variable (attached : Attached finite limits src d)

include attached

theorem Attached.grows (more : Bytes) : Attached finite limits (src ++ more) d := by
  obtain ⟨alive, whole, heads, reading⟩ := attached
  exact ⟨alive, by rw [List.length_append]; omega, heads, reading.grows more⟩

theorem Attached.scan_eq {result : Step Scanner Failure}
    (scans : Scans (Scanner.step finite) src d.scanner result) :
    scan (Scanner.step finite) src (src.length + 1) d.scanner = result :=
  scans.scan_eq step_lawful attached.reads

theorem Attached.decode_incomplete
    (scans : Scans (Scanner.step finite) src d.scanner (.incomplete next)) :
    d.decode finite src = (.ok none, ⟨next, src.length, false⟩, src) := by
  unfold Decoder.decode
  rw [if_neg (by simp [attached.alive]), if_neg (Nat.not_lt.mpr attached.whole),
    attached.scan_eq scans, attached.alive]

theorem Attached.decode_failed {failure : Failure}
    (scans : Scans (Scanner.step finite) src d.scanner (.failed failure)) :
    d.decode finite src = d.fail failure src := by
  unfold Decoder.decode
  rw [if_neg (by simp [attached.alive]), if_neg (Nat.not_lt.mpr attached.whole),
    attached.scan_eq scans]

theorem Attached.decode_frame (scans : Scans (Scanner.step finite) src d.scanner (.complete next))
    (scanned : Scanned finite limits src next frame.heads) :
    d.decode finite src = (.ok (some frame), .fresh limits, src.drop next.cursor) := by
  unfold Decoder.decode
  rw [if_neg (by simp [attached.alive]), if_neg (Nat.not_lt.mpr attached.whole),
    attached.scan_eq scans, attached.alive]
  simp only [materialize_heads scanned.resolved, if_neg (Nat.not_lt.mpr scanned.bounded), scanned.same]
  rfl

end

theorem reading_fresh (valid : limits.validate = .ok ()) (src : Bytes) :
    Reading finite limits src (.fresh limits) [] := by
  have some_ : 0 < limits.maxNodes := by
    unfold RespLimits.validate at valid
    split at valid
    · cases valid
    · omega
  exact ⟨⟨rfl, .nil, fun _ member => (nomatch member), fun _ member => (nomatch member), rfl, rfl, some_⟩,
    Nat.zero_le _, rfl, Nat.zero_le _, Nat.zero_le _⟩

theorem attached_fresh (valid : limits.validate = .ok ()) (src : Bytes) :
    Attached finite limits src (.fresh limits) :=
  ⟨rfl, Nat.zero_le _, [], reading_fresh valid src⟩

/-- **What a call returns.** -/
theorem Attached.decode_cases (attached : Attached finite limits src d) :
    (∃ next, Attached finite limits src ⟨next, src.length, false⟩ ∧
        Scans (Scanner.step finite) src d.scanner (.incomplete next) ∧
        d.decode finite src = (.ok none, ⟨next, src.length, false⟩, src)) ∨
      (∃ next frame, Scanned finite limits src next (Frame.heads frame) ∧ frame.Fits finite limits ∧
        0 < next.cursor ∧ Scans (Scanner.step finite) src d.scanner (.complete next) ∧
        d.decode finite src = (.ok (some frame), .fresh limits, src.drop next.cursor)) ∨
      ∃ failure, failure ≠ .panic ∧ Scans (Scanner.step finite) src d.scanner (.failed failure) ∧
        d.decode finite src = d.fail failure src := by
  obtain ⟨heads, reading⟩ := attached.reads
  rcases scan_cases reading with ⟨next, heads, kept, scans⟩ | ⟨next, frame, scanned, fits, moved, scans⟩ |
    ⟨failure, calm, scans⟩
  · exact .inl ⟨next, ⟨rfl, Nat.le_refl _, heads, kept⟩, scans, attached.decode_incomplete scans⟩
  · exact .inr (.inl ⟨next, frame, scanned, fits, moved, scans, attached.decode_frame scans scanned⟩)
  · exact .inr (.inr ⟨failure, calm, scans, attached.decode_failed scans⟩)

theorem Scanned.grows (scanned : Scanned finite limits src s heads) (more : Bytes) :
    Scanned finite limits (src ++ more) s heads := by
  have bounded := scanned.bounded
  exact { scanned with
    resolved := resolved_append more scanned.resolved
    bounded := by rw [List.length_append]; omega }

/-- A scan taken up again gives the same call. -/
theorem Attached.decode_resume (attached : Attached finite limits src d) (more : Bytes)
    (later : Attached finite limits src ⟨next, src.length, false⟩)
    (scans : Scans (Scanner.step finite) src d.scanner (.incomplete next)) :
    Alike (fun d : Decoder => d.poisoned = true)
      (Decoder.decode finite ⟨next, src.length, false⟩ (src ++ more)) (d.decode finite (src ++ more)) := by
  have resumes : ∀ {result : Step Scanner Failure},
      Scans (Scanner.step finite) (src ++ more) next result →
      Scans (Scanner.step finite) (src ++ more) d.scanner result := fun rest =>
    scans.resumes step_lawful more attached.reads rest
  have whole := attached.grows more
  rcases (later.grows more).decode_cases with ⟨last, _, rest, called⟩ |
    ⟨last, frame, scanned, _, _, rest, called⟩ | ⟨failure, _, rest, called⟩
  · rw [called, whole.decode_incomplete (resumes rest)]
    exact ⟨rfl, rfl, .inl rfl⟩
  · rw [called, whole.decode_frame (resumes rest) scanned]
    exact ⟨rfl, rfl, .inl rfl⟩
  · rw [called, whole.decode_failed (resumes rest)]
    exact ⟨rfl, rfl, .inr ⟨rfl, rfl⟩⟩

theorem decode_poisoned (src : Bytes) (failed : d.poisoned = true) :
    d.decode finite src = (.error (.protocol .poisoned), d, src) := by
  unfold Decoder.decode
  rw [if_pos failed]

/-- **The decoder obeys the rules of an incremental decoder.** -/
theorem decode_lawful (valid : limits.validate = .ok ()) :
    Incremental.Decoder.Lawful (Decoder.decode finite) (Attached finite limits)
      (fun d => d.poisoned = true) where
  grows more attached := attached.grows more
  incomplete := by
    intro buffer d d' rest attached called
    rcases attached.decode_cases with ⟨next, later, scans, result⟩ | ⟨_, _, _, _, _, _, result⟩ |
      ⟨_, _, _, result⟩ <;> cases result.symm.trans called
    exact ⟨rfl, later, fun more => attached.decode_resume more later scans⟩
  frame := by
    intro buffer d d' rest frame attached called
    rcases attached.decode_cases with ⟨_, _, _, result⟩ | ⟨next, frame, scanned, _, moved, scans, result⟩ |
      ⟨_, _, _, result⟩ <;> cases result.symm.trans called
    have bounded := scanned.bounded
    refine ⟨by rw [List.length_drop]; omega, attached_fresh valid _, fun more => ?_⟩
    have extended := scans.extends_ step_lawful more attached.reads nofun
    rw [(attached.grows more).decode_frame extended (scanned.grows more),
      List.drop_append_of_le_length bounded]
  failed := by
    intro buffer d d' rest error attached called
    rcases attached.decode_cases with ⟨_, _, _, result⟩ | ⟨_, _, _, _, _, _, result⟩ |
      ⟨failure, _, scans, result⟩ <;> cases result.symm.trans called
    refine ⟨rfl, rfl, fun more => ?_⟩
    have extended := scans.extends_ step_lawful more attached.reads nofun
    exact ⟨_, (attached.grows more).decode_failed extended, rfl⟩
  alive attached failed := by
    rw [attached.alive] at failed
    cases failed
  dead := fun buffer failed => ⟨_, _, decode_poisoned buffer failed, failed⟩

/-! ### Sessions -/

/-- A decoder and an empty buffer after chunks and calls in any order. -/
def Decoder.after (finite : Bytes → Bool) (d : Decoder) (operations : List (Operation Byte)) :
    Session Decoder Failure Byte Frame :=
  Session.run (Decoder.decode finite) ⟨d, [], [], none⟩ operations

/-- What it has returned and left once nothing more can be taken off the buffer. -/
def Decoder.outcome (finite : Bytes → Bool) (d : Decoder) (operations : List (Operation Byte)) :
    List Frame × Option Failure × Bytes :=
  Session.observed ((d.after finite operations).drain (Decoder.decode finite))

section

variable (made : Decoder.new limits = .ok d)

include made

theorem new_eq_ok : limits.validate = .ok () ∧ d = .fresh limits := by
  obtain ⟨_, valid, same⟩ := bind_eq_ok_iff.mp made
  cases same
  exact ⟨valid, rfl⟩

theorem valid_after (operations : List (Operation Byte)) :
    Session.Valid (Attached finite limits) (fun d => d.poisoned = true) (d.after finite operations) := by
  obtain ⟨valid, rfl⟩ := new_eq_ok made
  exact Session.Valid.run (decode_lawful valid) (.inl ⟨attached_fresh valid _, rfl⟩) operations

/-- However a text is cut, the outcome is that of the text delivered at once. -/
theorem outcome_eq (operations : List (Operation Byte)) :
    d.outcome finite operations = d.outcome finite [.append (chunks operations)] := by
  obtain ⟨valid, _⟩ := new_eq_ok made
  exact Session.fragmentation (decode_lawful valid) (valid_after made []) (by simp [chunks])

end

/-- A call in a session that has not failed. -/
theorem decode_after {result : Except Failure (Option Frame)} {next : Decoder} {rest : Bytes}
    (attached : Attached finite limits src d) (called : d.decode finite src = (result, next, rest)) :
    result ≠ .error .panic ∧ ((∀ frame, result ≠ .ok (some frame)) → rest = src) := by
  rcases attached.decode_cases with ⟨_, _, _, same⟩ | ⟨_, _, _, _, _, _, same⟩ | ⟨_, calm, _, same⟩ <;>
    cases same.symm.trans called
  · exact ⟨nofun, fun _ => rfl⟩
  · exact ⟨nofun, fun none => absurd rfl (none _)⟩
  · exact ⟨fun wrong => calm (by cases wrong; rfl), fun _ => rfl⟩

/-- **Fragmentation independence.** However a text is cut into chunks and however calls fall between
them, the frames, the first error and the bytes left are those of the text delivered at once. No call
panics; a call that returns no frame leaves the buffer as it was; after an error every call fails. -/
theorem decoder_fragmentation (made : Decoder.new limits = .ok d) (operations : List (Operation Byte)) :
    d.outcome finite operations = d.outcome finite [.append (chunks operations)] ∧
      ∀ s, s = d.after finite operations →
        ∀ result next rest, s.decoder.decode finite s.buffer = (result, next, rest) →
          result ≠ .error .panic ∧ ((∀ frame, result ≠ .ok (some frame)) → rest = s.buffer) ∧
          (s.error.isSome → ∃ failure, result = .error failure) := by
  refine ⟨outcome_eq made operations, fun s reached result next rest called => ?_⟩
  have valid : Session.Valid (Attached finite limits) (fun d => d.poisoned = true) s :=
    reached ▸ valid_after made operations
  rcases valid with ⟨attached, calm⟩ | ⟨failed, _⟩
  · obtain ⟨noPanic, kept⟩ := decode_after attached called
    refine ⟨noPanic, kept, fun recorded => ?_⟩
    rw [calm] at recorded
    cases recorded
  · rw [decode_poisoned s.buffer failed] at called
    cases called
    exact ⟨nofun, fun _ => rfl, fun _ => ⟨_, rfl⟩⟩

/-- A line cut inside its terminator. -/
theorem decoder_fragmentation_line : Decoder.new .default = .ok (.fresh .default) ∧
    (Decoder.fresh .default).outcome (fun _ => false)
        [.append (Bytes.ascii "+a\r"), .decode, .append (Bytes.ascii "\n")] =
      (Decoder.fresh .default).outcome (fun _ => false) [.append (Bytes.ascii "+a\r\n")] :=
  have made : Decoder.new .default = .ok (.fresh .default) := rfl
  ⟨made, (decoder_fragmentation made _).1⟩

/-- **A decoder stays within its limits** however its input arrives: until it fails, its nodes and its
open arrays are within the limits, and it has not looked behind the buffer. -/
theorem decoder_bounded (made : Decoder.new limits = .ok d) (operations : List (Operation Byte))
    {s : Session Decoder Failure Byte Frame} (reached : s = d.after finite operations)
    (alive : s.error = none) :
    s.decoder.scanner.nodes.length ≤ limits.maxNodes ∧
      s.decoder.scanner.arrays.length ≤ limits.maxDepth ∧
      s.decoder.scanner.cursor ≤ s.buffer.length := by
  have valid : Session.Valid (Attached finite limits) (fun d => d.poisoned = true) s :=
    reached ▸ valid_after made operations
  rcases valid with ⟨attached, _⟩ | ⟨_, failed⟩
  · obtain ⟨heads, track, bounded, _⟩ := attached.reads
    have counted := track.counted
    have budget := track.budget
    refine ⟨?_, waits_le track.levels (by simp) _ List.mem_cons_self, bounded⟩
    rw [track.resolved.length_eq]
    omega
  · rw [alive] at failed
    cases failed

theorem decoder_bounded_nested :
    let s := (Decoder.fresh .default).after (fun _ => false) [.append (Bytes.ascii "*1\r\n*"), .decode]
    s.error = none ∧ s.decoder.scanner.arrays.length ≤ 16 := by
  intro s
  have made : Decoder.new .default = .ok (.fresh .default) := rfl
  have alive : s.error = none := by decide +kernel
  exact ⟨alive, (decoder_bounded made _ rfl alive).2.1⟩

end Sider.Resp
