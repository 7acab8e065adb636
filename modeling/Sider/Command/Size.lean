/-
**The size of a request.**

A queue is charged for its requests, and a memory command above a size is refused, before anything is
encoded: both add lengths and numbers of digits, and saturate. `requestBytes_exact` says that both are
the length of what the encoder writes, so that a request within a limit is encoded within it.
-/

import Sider.Command.Request
import Sider.Resp.Encoder

namespace Sider

open Resp

/-! ### Memory commands -/

def maxRequestBytes : Nat := 262144

/-- A bulk on the wire, by the length of its value. -/
def bulkSize (length : Nat) : Nat :=
  Machine.saturatingAdd length (Nat.log 10 length + 6)

/-- A memory command on the wire, by its name and its arguments. -/
def memoryRequestSize (raw : Bytes) (args : List Bytes) : Nat :=
  args.foldl (fun size arg => Machine.saturatingAdd size (bulkSize arg.length))
    (Machine.saturatingAdd (bulkSize raw.length) (Nat.log 10 (args.length + 1) + 4))

/-- The first check of a memory command. -/
def checkMemoryRequest (raw : Bytes) (args : List Bytes) : Except RequestError Unit :=
  if maxRequestBytes < memoryRequestSize raw args then .error (.memory "ERR memory limit exceeded")
  else .ok ()

/-! ### The sizes are exact -/

/-- An array of bulks. -/
def requestFrame (arguments : List Bytes) : Frame :=
  arrayFrame (arguments.map bulkFrame)

theorem size_bulkFrame (value : Bytes) :
    (bulkFrame value).size = value.length + (Nat.log 10 value.length + 6) := by
  have leaf := length_leaf (.bulk (some value))
  rw [Frame.size_eq]
  show (Leaf.bulk (some value)).bytes.length + 0 = _
  rw [leaf]
  show (Bytes.decimal value.length).length + 3 + (value.length + 2) + 0 = _
  rw [Bytes.length_decimal]
  omega

theorem size_requestFrame (arguments : List Bytes) :
    (requestFrame arguments).size = Nat.log 10 arguments.length + 4 +
      (arguments.map fun value => (bulkFrame value).size).sum := by
  rw [Frame.size_eq]
  show (line .array (Bytes.decimal (arguments.map bulkFrame).length)).length +
    ((arguments.map bulkFrame).map Frame.size).sum = _
  rw [length_line, Bytes.length_decimal, List.length_map, List.map_map]
  rfl

theorem saturatingAdd_of_lt {a b : Nat} (fits : a + b < Machine.word) :
    Machine.saturatingAdd a b = a + b :=
  Nat.min_eq_left (Nat.le_sub_one_of_lt fits)

/-- Saturating sums are exact as long as the whole sum is a machine word. -/
theorem foldl_exact {α : Type} {step : Nat → α → Nat} {cost : α → Nat}
    (exact : ∀ size item, size + cost item < Machine.word → step size item = size + cost item)
    {items : List α} {start : Nat} (fits : start + (items.map cost).sum < Machine.word) :
    items.foldl step start = start + (items.map cost).sum := by
  induction items generalizing start with
  | nil => rfl
  | cons item items ih =>
    rw [List.map_cons, List.sum_cons, ← Nat.add_assoc] at fits ⊢
    rw [List.foldl_cons, exact start item (by omega), ih fits]

theorem requestBytes_eq {arguments : List Bytes} (fits : (requestFrame arguments).size < Machine.word) :
    requestBytes (requestFrame arguments) = (requestFrame arguments).size := by
  rw [size_requestFrame] at fits ⊢
  show (arguments.map bulkFrame).foldl _ (digits (arguments.map bulkFrame).length + 3) = _
  rw [List.foldl_map, List.length_map]
  refine foldl_exact (fun size value small => ?_) fits
  rw [size_bulkFrame] at small ⊢
  show Machine.saturatingAdd (Machine.saturatingAdd size value.length) (digits value.length + 5) = _
  unfold digits
  rw [saturatingAdd_of_lt (a := size) (by omega), saturatingAdd_of_lt (by omega)]
  omega

theorem memoryRequestSize_eq {raw : Bytes} {args : List Bytes}
    (fits : (requestFrame (raw :: args)).size < Machine.word) :
    memoryRequestSize raw args = (requestFrame (raw :: args)).size := by
  rw [size_requestFrame, List.map_cons, List.sum_cons, List.length_cons, size_bulkFrame] at fits ⊢
  have name : Machine.saturatingAdd (bulkSize raw.length) (Nat.log 10 (args.length + 1) + 4) =
      Nat.log 10 (args.length + 1) + 4 + (raw.length + (Nat.log 10 raw.length + 6)) := by
    unfold bulkSize
    rw [saturatingAdd_of_lt (a := raw.length) (by omega), saturatingAdd_of_lt (by omega), Nat.add_comm]
  unfold memoryRequestSize
  rw [name]
  refine (@foldl_exact Bytes _ (fun value => (bulkFrame value).size) (fun size value small => ?_) args _
    (by omega)).trans (Nat.add_assoc ..)
  rw [size_bulkFrame] at small ⊢
  unfold bulkSize
  rw [saturatingAdd_of_lt (a := value.length) (by omega), saturatingAdd_of_lt small]

/-- **The sizes are those of the encoder.** What a queue is charged and what is checked of a memory command
is the length of what the encoder writes for the request; a request within a limit, and within the limits
on single nodes, depth and count, is encoded within it. -/
theorem requestBytes_exact (arguments : List Bytes)
    (fits : (requestFrame arguments).size < Machine.word) :
    (∀ finite limits out, encode finite limits (requestFrame arguments) [] = (.ok (), out) →
      requestBytes (requestFrame arguments) = out.length ∧
        ∀ raw args, arguments = raw :: args → memoryRequestSize raw args = out.length) ∧
    requestBytes (requestFrame arguments) = (requestFrame arguments).bytes.length ∧
    (∀ raw args, arguments = raw :: args →
      memoryRequestSize raw args = (requestFrame arguments).bytes.length ∧
      (checkMemoryRequest raw args = .ok () ↔
        (requestFrame arguments).bytes.length ≤ maxRequestBytes)) ∧
    ∀ finite limits, limits.validate = .ok () →
      (∀ head ∈ (requestFrame arguments).heads, head.Fits finite limits) →
      (requestFrame arguments).depth ≤ limits.maxDepth →
      (requestFrame arguments).count ≤ limits.maxNodes →
      requestBytes (requestFrame arguments) ≤ limits.maxFrameBytes →
        ∃ out, encode finite limits (requestFrame arguments) [] = (.ok (), out) ∧
          out.length ≤ limits.maxFrameBytes := by
  have charged := requestBytes_eq fits
  have checked : ∀ raw args, arguments = raw :: args →
      memoryRequestSize raw args = (requestFrame arguments).bytes.length := by
    rintro raw args rfl
    exact memoryRequestSize_eq fits
  refine ⟨fun finite limits out encoded => ?_, charged, fun raw args same => ⟨checked raw args same, ?_⟩,
    fun finite limits valid heads depth count small => ?_⟩
  · obtain ⟨_, _, _, rfl⟩ := encode_eq_ok.mp encoded
    exact ⟨charged, checked⟩
  · unfold checkMemoryRequest
    rw [checked raw args same]
    split_ifs with large
    · exact iff_of_false nofun (Nat.not_le.mpr large)
    · exact iff_of_true rfl (Nat.not_lt.mp large)
  · rw [charged] at small
    refine ⟨_, encode_eq_ok.mpr ⟨valid, ⟨heads, depth, count, small⟩, ?_, rfl⟩, small⟩
    rw [List.length_nil, Nat.zero_add]
    exact fits

theorem requestBytes_exact_memory :
    let raw := Bytes.ascii "MEM.GET"
    let args := ["docs", "a"].map Bytes.ascii
    requestBytes (requestFrame (raw :: args)) =
        (Bytes.ascii "*3\r\n$7\r\nMEM.GET\r\n$4\r\ndocs\r\n$1\r\na\r\n").length ∧
      memoryRequestSize raw args = (requestFrame (raw :: args)).bytes.length ∧
      checkMemoryRequest raw args = .ok () := by
  intro raw args
  obtain ⟨_, _, checked, _⟩ := requestBytes_exact (raw :: args) (by decide +kernel)
  obtain ⟨size, accepts⟩ := checked raw args rfl
  exact ⟨by decide +kernel, size, accepts.mpr (by decide +kernel)⟩

end Sider
