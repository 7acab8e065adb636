/-
**Reading a text front to back.**

A reader of type `Cursor ε α` takes what it needs from the front of the unread text and returns a
value, or stops with an error. `Reads reader text value` says that whatever follows `text`, the
reader consumes exactly `text` and returns `value`. The rules follow the shape of a reader: a
sequence reads a concatenation, a loop reads the concatenation of its items.

`Consumes reader spec` is the converse: whatever the reader returns, it has consumed a text that
`spec` relates to the value. Its rules follow the shape of a reader in the same way.
-/

import Sider.Lib.Bytes

/-- A reader that can stop with an error. -/
abbrev Cursor (ε : Type) := StateT Bytes (Except ε)

namespace Cursor

variable {ε α β σ : Type}

variable {text : Bytes} {value : α} {result : β} {spec : α → Bytes → Prop}

/-! ### Readers -/

/-- The next `count` bytes, or `error` when fewer are left. -/
def take (error : ε) (count : Nat) : Cursor ε Bytes := fun unread =>
  if count ≤ unread.length then .ok (unread.take count, unread.drop count) else .error error

/-- How many bytes are left. -/
def remaining : Cursor ε Nat := fun unread => .ok (unread.length, unread)

/-- A little-endian number of `width` bytes. -/
def number (error : ε) (width : Nat) : Cursor ε Nat := do
  return Bytes.littleEndian (← take error width)

/-- Stop with `error` when the condition holds. -/
def reject (condition : Prop) [Decidable condition] (error : ε) : Cursor ε Unit := fun unread =>
  if condition then .error error else .ok ((), unread)

/-- Do the body `count` times. -/
def repeatM (body : σ → Cursor ε σ) : Nat → σ → Cursor ε σ
  | 0, state => pure state
  | count + 1, state => do repeatM body count (← body state)

/-- Read a whole text: nothing may be left. -/
def whole (reader : Cursor ε α) (extra : ε) (text : Bytes) : Except ε α :=
  match reader text with
  | .error error => .error error
  | .ok (value, unread) => if unread.isEmpty then .ok value else .error extra

/-! ### What a reader consumes -/

/-- Whatever follows, the reader consumes exactly `text` and returns `value`. -/
def Reads (reader : Cursor ε α) (text : Bytes) (value : α) : Prop :=
  ∀ rest, reader (text ++ rest) = .ok (value, rest)

theorem Reads.pure (value : α) : Reads (Pure.pure value : Cursor ε α) [] value :=
  fun _ => rfl

variable {reader : Cursor ε α} {next : α → Cursor ε β}

theorem Reads.bind {more : Bytes} (first : Reads reader text value)
    (second : Reads (next value) more result) : Reads (reader >>= next) (text ++ more) result := by
  intro rest
  show (reader (text ++ more ++ rest) >>= fun p => next p.1 p.2) = _
  rw [List.append_assoc, first]
  exact second rest

/-- A last step that consumes nothing. -/
theorem Reads.last (first : Reads reader text value) (second : Reads (next value) [] result) :
    Reads (reader >>= next) text result := by
  have both := first.bind second
  rwa [List.append_nil] at both

/-- A last step that only computes. -/
theorem Reads.map (first : Reads reader text value) (f : α → β) :
    Reads (reader >>= fun found => Pure.pure (f found)) text (f value) :=
  first.last (Reads.pure _)

/-- A first step that consumes nothing. -/
theorem Reads.skip (first : Reads reader [] value) (second : Reads (next value) text result) :
    Reads (reader >>= next) text result :=
  first.bind second

theorem Reads.take (error : ε) (text : Bytes) : Reads (take error text.length) text text := by
  intro rest
  unfold Cursor.take
  rw [if_pos (by simp), List.take_left, List.drop_left]

theorem Reads.take_of_length (error : ε) {count : Nat} (size : text.length = count) :
    Reads (Cursor.take error count) text text := by
  subst size
  exact Reads.take error text

theorem Reads.number (error : ε) {width value : Nat} (fits : value < 256 ^ width) :
    Reads (number error width) (Bytes.toLittleEndian width value) value := by
  have digits := (Reads.take_of_length error (Bytes.length_toLittleEndian width value)).map
    Bytes.littleEndian
  rwa [Bytes.littleEndian_toLittleEndian fits] at digits

theorem Reads.digit (error : ε) (value : Byte) : Reads (Cursor.number error 1) [value] value.val := by
  have same : Bytes.toLittleEndian 1 value.val = [value] :=
    congrArg (· :: []) (Fin.ext (Nat.mod_eq_of_lt value.isLt))
  rw [← same]
  exact Reads.number error value.isLt

theorem Reads.reject {condition : Prop} [Decidable condition] (passes : ¬ condition) (error : ε) :
    Reads (reject condition error) [] () := by
  intro rest
  unfold Cursor.reject
  rw [if_neg passes]
  rfl

/-- A step that looks how much is left. -/
theorem Reads.remaining {next : Nat → Cursor ε β}
    (second : ∀ count, text.length ≤ count → Reads (next count) text result) :
    Reads (remaining >>= next) text result := by
  intro rest
  show next (text ++ rest).length (text ++ rest) = _
  exact second _ (by simp) rest

/-- **A loop reads its items**, when each turn reads one of them from the state reached so far. -/
theorem Reads.repeatM {ι : Type} (body : σ → Cursor ε σ) (encode : ι → Bytes)
    (add : σ → ι → σ) (start : σ) (items : List ι)
    (turn : ∀ done item rest, items = done ++ item :: rest →
      Reads (body (done.foldl add start)) (encode item) (add (done.foldl add start) item)) :
    Reads (Cursor.repeatM body items.length start) (items.flatMap encode) (items.foldl add start) := by
  induction items generalizing start with
  | nil => exact Reads.pure start
  | cons item items ih =>
    refine (turn [] item items rfl).bind (ih (add start item) fun done next rest split => ?_)
    exact turn (item :: done) next rest (by rw [split]; rfl)

theorem whole_of_reads (reads : Reads reader text value) (extra : ε) :
    whole reader extra text = .ok value := by
  have exact_ := reads []
  rw [List.append_nil] at exact_
  unfold whole
  rw [exact_]
  rfl

/-! ### What a reader has consumed -/

/-- Whenever the reader returns, `spec` relates its value to the text it has consumed. -/
def Consumes (reader : Cursor ε α) (spec : α → Bytes → Prop) : Prop :=
  ∀ input value rest, reader input = .ok (value, rest) →
    ∃ text, input = text ++ rest ∧ spec value text

theorem Consumes.weaken {spec' : α → Bytes → Prop} (consumes : Consumes reader spec)
    (implies : ∀ value text, spec value text → spec' value text) : Consumes reader spec' := by
  intro input value rest read
  obtain ⟨text, whole, holds⟩ := consumes input value rest read
  exact ⟨text, whole, implies value text holds⟩

theorem Consumes.pure (holds : spec value []) : Consumes (Pure.pure value : Cursor ε α) spec := by
  rintro input found rest read
  cases read
  exact ⟨[], rfl, holds⟩

theorem Consumes.throw (error : ε) : Consumes (throw error : Cursor ε α) spec := by
  rintro input found rest read
  cases read

theorem Consumes.bind {first : α → Bytes → Prop} {spec : β → Bytes → Prop}
    (head : Consumes reader first) (tail : ∀ value text, first value text →
      Consumes (next value) fun result more => spec result (text ++ more)) :
    Consumes (reader >>= next) spec := by
  intro input result rest read
  change (reader input >>= fun p => next p.1 p.2) = _ at read
  cases headed : reader input with
  | error error => rw [headed] at read; cases read
  | ok found =>
    rw [headed] at read
    obtain ⟨text, rfl, holds⟩ := head input found.1 found.2 headed
    obtain ⟨more, tailed, final⟩ := tail found.1 text holds found.2 result rest read
    exact ⟨text ++ more, by rw [tailed, List.append_assoc], final⟩

/-- A step that consumes nothing. -/
theorem Consumes.silent {fact : α → Prop} {spec : β → Bytes → Prop}
    (head : Consumes reader fun value text => text = [] ∧ fact value)
    (tail : ∀ value, fact value → Consumes (next value) spec) :
    Consumes (reader >>= next) spec := by
  refine head.bind fun value text holds => ?_
  obtain ⟨rfl, holds⟩ := holds
  exact tail value holds

theorem Consumes.ite {condition : Prop} [Decidable condition] {first second : Cursor ε α}
    (yes : condition → Consumes first spec) (no : ¬ condition → Consumes second spec) :
    Consumes (if condition then first else second) spec := by
  split_ifs with holds
  · exact yes holds
  · exact no holds

theorem Consumes.take (error : ε) (count : Nat) :
    Consumes (Cursor.take error count) fun value text => value = text ∧ text.length = count := by
  intro input value rest read
  unfold Cursor.take at read
  split_ifs at read with enough
  cases read
  exact ⟨_, (List.take_append_drop count input).symm, rfl, by simpa using enough⟩

theorem Consumes.number (error : ε) (width : Nat) :
    Consumes (Cursor.number error width) fun value text =>
      text = Bytes.toLittleEndian width value ∧ value < 256 ^ width := by
  refine (Consumes.take error width).bind fun digits text holds => ?_
  obtain ⟨rfl, rfl⟩ := holds
  refine Consumes.pure ?_
  rw [List.append_nil]
  exact ⟨(Bytes.toLittleEndian_littleEndian digits).symm, Bytes.littleEndian_lt digits⟩

theorem Consumes.reject (condition : Prop) [Decidable condition] (error : ε) :
    Consumes (Cursor.reject condition error) fun _ text => text = [] ∧ ¬ condition := by
  intro input value rest read
  unfold Cursor.reject at read
  split_ifs at read with holds
  obtain ⟨_, rfl⟩ := Prod.mk.inj (Except.ok.inj read)
  exact ⟨[], rfl, rfl, holds⟩

theorem Consumes.remaining :
    Consumes (Cursor.remaining : Cursor ε Nat) fun _ text => text = [] ∧ True := by
  intro input value rest read
  obtain ⟨_, rfl⟩ := Prod.mk.inj (Except.ok.inj read)
  exact ⟨[], rfl, rfl, trivial⟩

/-- **A loop consumes turn after turn**: `inv` holds after each number of turns. -/
theorem Consumes.repeatM {body : σ → Cursor ε σ} (inv : Nat → σ → Bytes → Prop)
    (turn : ∀ done state text, inv done state text →
      Consumes (body state) fun next more => inv (done + 1) next (text ++ more))
    {count : Nat} {state : σ} (start : inv 0 state []) :
    Consumes (Cursor.repeatM body count state) (inv count) := by
  suffices later : ∀ count done state text, inv done state text →
      Consumes (Cursor.repeatM body count state) fun final more => inv (done + count) final (text ++ more) by
    have all := later count 0 state [] start
    rwa [Nat.zero_add] at all
  intro count
  induction count with
  | zero =>
    intro done state text holds
    exact Consumes.pure (by rwa [List.append_nil])
  | succ count ih =>
    intro done state text holds
    refine (turn done state text holds).bind fun next more turned => ?_
    refine (ih (done + 1) next (text ++ more) turned).weaken fun final last final_ => ?_
    rwa [← List.append_assoc, Nat.add_comm count 1, ← Nat.add_assoc]

theorem whole_of_consumes (consumes : Consumes reader spec) {extra : ε}
    (read : whole reader extra text = .ok value) : spec value text := by
  unfold whole at read
  split at read
  · cases read
  rename_i found unread returned
  split_ifs at read with ended
  obtain rfl := Except.ok.inj read
  obtain ⟨consumed, rfl, holds⟩ := consumes text found unread returned
  rw [List.isEmpty_iff.mp ended, List.append_nil]
  exact holds

end Cursor
