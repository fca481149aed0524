import LuaBytecode.Proofs.Bytes.Script

/-! Writers in place: room for a number is made at the end of the buffer before the number is put there,
so the room stays when the number does not fit. In place every write does what it does as a whole. -/
namespace LuaBytecode

namespace Pen
open Writer (Step)
open InPlace

def raw (bytes : Bytes) : InPlace Writer Unit := do
  let w ← get
  set (w.raw bytes)

/-- Makes room at the end and tells where it is. -/
def reserve (size : Nat) : InPlace Writer Nat := do
  let w ← get
  raw (List.replicate size 0)
  return w.buffer.length

/-- Puts bytes in the place of as many others. -/
def put (offset : Nat) (bytes : Bytes) : InPlace Writer Unit := do
  let w ← get
  set { w with buffer := w.buffer.take offset ++ bytes ++ w.buffer.drop (offset + bytes.length) }

/-- Puts a number where there is room for it. In big order eight bytes are put down from the lowest on
before the number is seen to be too great. -/
def fill (offset size : Nat) (n : Int) : InPlace Writer Unit := do
  let w ← get
  match Unsigned.encode? w.order size n with
  | .ok bytes => put offset bytes
  | .error fault =>
    if w.order = .big ∧ size = 8 ∧ 0 ≤ n then
      put offset (Unsigned.encode w.order size n.toNat)
    throw fault

def datum (size : Nat) (value : Datum) : InPlace Writer Unit := do
  let offset ← reserve size
  match value.number? with
  | some n => fill offset size n.value
  | none => throw .valueDoesNotFit

/-- A write in place. -/
def perform : Step → InPlace Writer Unit
  | .byte value => datum 1 value
  | .unsigned value width => do
    let width ← Width.ofBytes width
    datum width.bytes value
  | .raw bytes => raw bytes

variable {w : Writer}

private theorem run_reserve (size : Nat) :
    run (reserve size) w = (.ok w.buffer.length, w.raw (List.replicate size 0)) := rfl

/-- Bytes that are put where room was made for them are as good as added. -/
private theorem run_put_reserved {size : Nat} {bytes : Bytes} (h : bytes.length = size) :
    run (put w.buffer.length bytes) (w.raw (List.replicate size 0)) = (.ok (), w.raw bytes) := by
  have hfront : (w.buffer ++ List.replicate size 0).take w.buffer.length = w.buffer := List.take_left
  have hback : (w.buffer ++ List.replicate size 0).drop (w.buffer.length + bytes.length) = [] := by
    apply List.drop_eq_nil_of_le
    rw [List.length_append, List.length_replicate, h]
  simp only [put, run_bind, run_get, run_set, Writer.raw, hfront, hback, List.append_nil]

/-- A number in the room made for it, or what it leaves there if it does not fit. -/
private theorem run_fill_reserved (size : Nat) (n : Int) :
    run (fill w.buffer.length size n) (w.raw (List.replicate size 0)) = w.number size n := by
  rw [fill, run_bind, run_get, Writer.number]
  show run (match Unsigned.encode? w.order size n with
    | .ok bytes => put w.buffer.length bytes
    | .error fault => _) _ = _
  cases hencode : Unsigned.encode? w.order size n with
  | ok bytes =>
    have hlen : bytes.length = size := by
      rw [Unsigned.encode?] at hencode
      split at hencode
      · rw [← Except.ok.inj hencode, Unsigned.length_encode]
      · cases hencode
    exact run_put_reserved hlen
  | error fault =>
    have horder : (w.raw (List.replicate size 0)).order = w.order := rfl
    simp only [Writer.filler, horder]
    by_cases hlow : w.order = .big ∧ size = 8 ∧ 0 ≤ n
    · rw [if_pos hlow, if_pos hlow, run_bind_ok (run_put_reserved (Unsigned.length_encode ..)), run_throw]
    · rw [if_neg hlow, if_neg hlow]
      rfl

theorem run_datum (size : Nat) (value : Datum) : run (datum size value) w = w.datum size value := by
  rw [datum, run_bind_ok (run_reserve size), Writer.datum]
  cases value.number? with
  | none => rfl
  | some n => exact run_fill_reserved size n.value

/-- In place a write does what it does as a whole. -/
theorem run_perform (s : Step) : run (perform s) w = w.step s := by
  cases s with
  | byte value => exact run_datum 1 value
  | unsigned value width =>
    rw [perform, run_bind, run_lift, Writer.step, Writer.unsigned]
    cases Width.ofBytes width with
    | error fault => rfl
    | ok width => exact run_datum width.bytes value
  | raw bytes => rfl

end Pen
end LuaBytecode
