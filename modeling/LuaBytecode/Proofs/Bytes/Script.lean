import LuaBytecode.Bytes.Reader
import LuaBytecode.Bytes.Writer
import LuaBytecode.Proofs.Bytes.Unsigned
import LuaBytecode.Proofs.Outcome

/-! Scripts of writes and reads: a reader that mirrors the writes gets back what was written, and a
write adds to the end of the buffer, whatever becomes of it. -/
namespace LuaBytecode

namespace Width

theorem ofBytes_bytes (width : Width) : ofBytes width.bytes = .ok width := by
  cases width <;> rfl

/-- The sizes that a number can have. -/
theorem exists_bytes_iff {n : Int} : (∃ width : Width, n = width.bytes) ↔ n ∈ [1, 2, 4, 8] := by
  constructor
  · rintro ⟨width, rfl⟩
    cases width <;> decide
  · intro h
    simp only [List.mem_cons, List.not_mem_nil, or_false] at h
    rcases h with rfl | rfl | rfl | rfl
    · exact ⟨.one, rfl⟩
    · exact ⟨.two, rfl⟩
    · exact ⟨.four, rfl⟩
    · exact ⟨.eight, rfl⟩

theorem ofBytes_of_not_mem {n : Int} (h : n ∉ [1, 2, 4, 8]) :
    ofBytes n = .error (.unsupportedWidth n) := by
  simp only [List.mem_cons, List.not_mem_nil, or_false, not_or] at h
  rw [ofBytes, ofBytes?, if_neg h.1, if_neg h.2.1, if_neg h.2.2.1, if_neg h.2.2.2]

end Width

namespace Datum

/-- The datum is a number that `size` bytes have room for. -/
def Fits (size : Nat) (value : Datum) : Prop :=
  ∃ n, value.number? = some n ∧ 0 ≤ n.value ∧ n.value < 2 ^ (8 * size)

/-- The number that a datum is; zero if it is none or a negative one. -/
def magnitude (value : Datum) : Nat :=
  match value.number? with
  | some n => n.value.toNat
  | none => 0

theorem Fits.magnitude_lt {size : Nat} {value : Datum} (h : value.Fits size) :
    value.magnitude < 256 ^ size := by
  obtain ⟨n, hn, hpos, hlt⟩ := h
  have hpow : (256 : Int) ^ size = 2 ^ (8 * size) := by rw [pow_mul]; rfl
  rw [← hpow] at hlt
  rw [magnitude, hn]
  apply (Int.toNat_lt hpos).mpr
  push_cast
  exact hlt

end Datum

namespace Writer

theorem datum_of_fits {size : Nat} {value : Datum} (h : value.Fits size) (w : Writer) :
    w.datum size value = (.ok (), w.raw (Unsigned.encode w.order size value.magnitude)) := by
  have hlt := h.magnitude_lt
  obtain ⟨n, hn, hpos, _⟩ := h
  have hvalue : n.value = (value.magnitude : Int) := by
    rw [Datum.magnitude, hn]
    exact (Int.toNat_of_nonneg hpos).symm
  rw [datum, hn]
  simp only [number, hvalue, Unsigned.encode?_natCast hlt]

private theorem length_filler (order : ByteOrder) (size : Nat) (n : Int) :
    (filler order size n).length = size := by
  rw [filler]
  split_ifs <;> simp

theorem datum_of_not_fits {size : Nat} {value : Datum} (h : ¬ value.Fits size) (w : Writer) :
    ∃ filler : Bytes, filler.length = size ∧
      w.datum size value = (.error .valueDoesNotFit, w.raw filler) := by
  rw [datum]
  cases hnumber : value.number? with
  | none => exact ⟨List.replicate size 0, List.length_replicate, rfl⟩
  | some n =>
    have hrange : ¬ (0 ≤ n.value ∧ n.value ≤ (Bits.mask (8 * size) : Nat)) := by
      rintro ⟨hpos, hle⟩
      rw [Bits.mask_natCast] at hle
      exact h ⟨n, hnumber, hpos, by omega⟩
    refine ⟨filler w.order size n.value, length_filler .., ?_⟩
    simp only [number, Unsigned.encode?, if_neg hrange]

private theorem prefix_datum (w : Writer) (size : Nat) (value : Datum) :
    w.buffer <+: (w.datum size value).2.buffer := by
  by_cases h : value.Fits size
  · rw [datum_of_fits h]
    exact List.prefix_append ..
  · obtain ⟨filler, _, hdatum⟩ := datum_of_not_fits h w
    rw [hdatum]
    exact List.prefix_append ..

theorem unsigned_bytes (w : Writer) (width : Width) (value : Datum) :
    w.unsigned width.bytes value = w.datum width.bytes value := by
  rw [unsigned, Width.ofBytes_bytes]

theorem unsigned_of_not_mem {width : Int} (h : width ∉ [1, 2, 4, 8]) (w : Writer) (value : Datum) :
    w.unsigned width value = (.error (.unsupportedWidth width), w) := by
  rw [unsigned, Width.ofBytes_of_not_mem h]

/-- What was written stays, whether or not the write succeeds. -/
theorem prefix_step (w : Writer) (s : Step) : w.buffer <+: (w.step s).2.buffer := by
  cases s with
  | byte value => exact prefix_datum w 1 value
  | unsigned value width =>
    show w.buffer <+: (w.unsigned width value).2.buffer
    by_cases hwidth : width ∈ [1, 2, 4, 8]
    · obtain ⟨width, rfl⟩ := Width.exists_bytes_iff.mpr hwidth
      rw [unsigned_bytes]
      exact prefix_datum ..
    · rw [unsigned_of_not_mem hwidth]
  | raw bytes => exact List.prefix_append ..

/-- The outcomes of writes in turn and the writer after all of them. -/
def run (w : Writer) : List Step → List (Except Fault Unit) × Writer
  | [] => ([], w)
  | s :: steps =>
    let (outcome, w) := w.step s
    let (outcomes, w) := w.run steps
    (outcome :: outcomes, w)

private theorem prefix_run (w : Writer) (steps : List Step) : w.buffer <+: (w.run steps).2.buffer := by
  induction steps generalizing w with
  | nil => exact List.prefix_rfl
  | cons s steps ih => exact (prefix_step w s).trans (ih (w.step s).2)

namespace Step

/-- A write that there is room for. -/
def Fits : Step → Prop
  | .byte value => value.Fits 1
  | .unsigned value width => width ∈ [1, 2, 4, 8] ∧ value.Fits width.toNat
  | .raw _ => True

/-- The bytes of a write that fits. -/
def image (order : ByteOrder) : Step → Bytes
  | .byte value => Unsigned.encode order 1 value.magnitude
  | .unsigned value width => Unsigned.encode order width.toNat value.magnitude
  | .raw bytes => bytes

/-- The read that mirrors a write. -/
def mirror : Step → Reader.Step
  | .byte _ => .byte
  | .unsigned _ width => .unsigned width
  | .raw bytes => .raw bytes.length

/-- What was written, as the reply of a reader. -/
def written : Step → Reader.Reply
  | .byte value => .number value.magnitude
  | .unsigned value _ => .number value.magnitude
  | .raw bytes => .bytes bytes

end Step

private theorem step_of_fits {s : Step} (h : s.Fits) (w : Writer) :
    w.step s = (.ok (), w.raw (s.image w.order)) := by
  cases s with
  | byte value => exact datum_of_fits h w
  | unsigned value width =>
    obtain ⟨hwidth, hvalue⟩ := h
    obtain ⟨width, rfl⟩ := Width.exists_bytes_iff.mpr hwidth
    rw [Int.toNat_natCast] at hvalue
    show w.unsigned width.bytes value = _
    rw [unsigned_bytes, datum_of_fits hvalue]
    rfl
  | raw bytes => rfl

private theorem run_of_fits {steps : List Step} (h : ∀ s ∈ steps, s.Fits) (w : Writer) :
    w.run steps = (steps.map fun _ => .ok (), w.raw (steps.flatMap (·.image w.order))) := by
  induction steps generalizing w with
  | nil => simp [run, raw]
  | cons s steps ih =>
    rw [List.forall_mem_cons] at h
    rw [run, step_of_fits h.1]
    simp only [ih h.2]
    simp [raw]

end Writer

namespace Reader
open Outcome

/-- The outcomes of reads in turn and the reader after all of them. -/
def run (r : Reader) : List Step → List (Except Fault Reply) × Reader
  | [] => ([], r)
  | s :: steps =>
    let (outcome, r) := r.step s
    let (outcomes, r) := r.run steps
    (outcome :: outcomes, r)

/-- A reader that stands between the bytes that were read and those that were not. -/
def between (order : ByteOrder) (front back : Bytes) : Reader := ⟨front ++ back, order, front.length⟩

theorem rest_between (order : ByteOrder) (front back : Bytes) :
    (between order front back).rest = back := by
  rw [rest, between]
  exact List.drop_left

theorem between_append (order : ByteOrder) (front bytes back : Bytes) :
    { between order front (bytes ++ back) with position := front.length + bytes.length } =
      between order (front ++ bytes) back := by
  simp [between]

theorem number_between (order : ByteOrder) {size n : Nat} (hn : n < 256 ^ size)
    (front back : Bytes) :
    (between order front (Unsigned.encode order size n ++ back)).number size =
      .ok (n, between order (front ++ Unsigned.encode order size n) back) := by
  let r := between order front (Unsigned.encode order size n ++ back)
  have hread : Unsigned.read? r.order size r.rest = some (n, back) := by
    rw [rest_between]
    exact Unsigned.read?_encode_append order hn back
  have hmove := between_append order front (Unsigned.encode order size n) back
  rw [Unsigned.length_encode] at hmove
  rw [← hmove, number, hread]
  rfl

private theorem raw_between (order : ByteOrder) (front bytes back : Bytes) :
    (between order front (bytes ++ back)).raw bytes.length =
      .ok (bytes, between order (front ++ bytes) back) := by
  have hsplit : Unsigned.split? bytes.length (bytes ++ back) = some (bytes, back) :=
    Unsigned.split?_eq_some_iff.mpr ⟨rfl, rfl⟩
  rw [raw, if_neg (Int.not_lt.mpr (Int.natCast_nonneg _)), Int.toNat_natCast, rest_between, hsplit,
    ← between_append]
  rfl

/-- The mirror of a write takes the bytes of the write and gives what was written. -/
theorem step_mirror {s : Writer.Step} (h : s.Fits) (order : ByteOrder) (front back : Bytes) :
    (between order front (s.image order ++ back)).step s.mirror =
      (.ok s.written, between order (front ++ s.image order) back) := by
  cases s with
  | byte value =>
    have hread := number_between order (Datum.Fits.magnitude_lt h) front back
    simp only [Writer.Step.mirror, Writer.Step.image, step, advance, byte, hread]
    rfl
  | unsigned value width =>
    obtain ⟨hwidth, hvalue⟩ := h
    obtain ⟨width, rfl⟩ := Width.exists_bytes_iff.mpr hwidth
    have hread := number_between order hvalue.magnitude_lt front back
    rw [Int.toNat_natCast] at hread
    simp only [Writer.Step.mirror, Writer.Step.image, step, advance, unsigned, Width.ofBytes_bytes,
      ok_bind, Int.toNat_natCast, hread]
    rfl
  | raw bytes =>
    have hread := raw_between order front bytes back
    simp only [Writer.Step.mirror, Writer.Step.image, step, advance, hread]
    rfl

/-- The mirror of a script takes the bytes of the script and gives all that was written. -/
theorem run_mirror {steps : List Writer.Step} (h : ∀ s ∈ steps, s.Fits) (order : ByteOrder)
    (front back : Bytes) :
    (between order front (steps.flatMap (·.image order) ++ back)).run (steps.map (·.mirror)) =
      (steps.map fun s => .ok s.written,
        between order (front ++ steps.flatMap (·.image order)) back) := by
  induction steps generalizing front with
  | nil => simp [run]
  | cons s steps ih =>
    rw [List.forall_mem_cons] at h
    rw [List.map_cons, run, List.flatMap_cons, List.append_assoc, step_mirror h.1]
    simp only [ih h.2]
    simp

end Reader

namespace Writer

/-- A script of writes that all fit succeeds, and a reader of the same byte order that mirrors it gives
back what was written and ends at the end of the buffer. Any other write fails: for a number that does
not fit the buffer grows by as many bytes as the number would have had, for a width that no number has
it stays as it was. No write changes what was written before it. -/
theorem read_written_back :
    (∀ (order : ByteOrder) (steps : List Step), (∀ s ∈ steps, s.Fits) →
      ∃ buffer : Bytes,
        run { order } steps = (steps.map fun _ => .ok (), { buffer, order }) ∧
        Reader.run { buffer, order } (steps.map (·.mirror)) =
          (steps.map fun s => .ok s.written, { buffer, order, position := buffer.length })) ∧
    ∀ w : Writer,
      (∀ s, w.buffer <+: (w.step s).2.buffer) ∧
      (∀ steps, w.buffer <+: (w.run steps).2.buffer) ∧
      (∀ value, ¬ value.Fits 1 → ∃ filler : Bytes, filler.length = 1 ∧
        w.step (.byte value) =
          (.error .valueDoesNotFit, { w with buffer := w.buffer ++ filler })) ∧
      (∀ value, ∀ width ∈ [1, 2, 4, 8], ¬ value.Fits width.toNat →
        ∃ filler : Bytes, (filler.length : Int) = width ∧
          w.step (.unsigned value width) =
            (.error .valueDoesNotFit, { w with buffer := w.buffer ++ filler })) ∧
      ∀ value, ∀ width ∉ [1, 2, 4, 8],
        w.step (.unsigned value width) = (.error (.unsupportedWidth width), w) := by
  constructor
  · intro order steps hsteps
    refine ⟨steps.flatMap (·.image order), run_of_fits hsteps _, ?_⟩
    have hread := Reader.run_mirror hsteps order [] []
    rw [List.append_nil, List.nil_append] at hread
    simpa [Reader.between] using hread
  · intro w
    refine ⟨prefix_step w, prefix_run w, fun value hvalue => datum_of_not_fits hvalue w, ?_,
      fun value width hwidth => unsigned_of_not_mem hwidth w value⟩
    intro value width hwidth hvalue
    obtain ⟨width, rfl⟩ := Width.exists_bytes_iff.mpr hwidth
    obtain ⟨filler, hlen, hdatum⟩ := datum_of_not_fits hvalue w
    refine ⟨filler, ?_, ?_⟩
    · rw [hlen, Int.toNat_natCast]
    · exact (unsigned_bytes w width value).trans hdatum

/-- Numbers of several sizes and a run of bytes come back in big order, a truth value as its number; one
more than eight bytes hold is refused. -/
theorem read_written_back_mixed :
    let steps : List Step := [.byte (.int 255), .unsigned (.int 0x1234) 2, .raw [7, 0, 7],
      .unsigned (.bool true) 8, .unsigned (.int (2 ^ 32 - 1)) 4]
    ∃ buffer : Bytes,
      run { order := .big } steps = (List.replicate 5 (.ok ()), { buffer, order := .big }) ∧
      Reader.run { buffer, order := .big } [.byte, .unsigned 2, .raw 3, .unsigned 8, .unsigned 4] =
        ([.ok (.number 255), .ok (.number 0x1234), .ok (.bytes [7, 0, 7]), .ok (.number 1),
          .ok (.number (2 ^ 32 - 1))], { buffer, order := .big, position := buffer.length }) ∧
      ∃ filler : Bytes, filler.length = 8 ∧
        step { buffer, order := .big } (.unsigned (.int (2 ^ 64)) 8) =
          (.error .valueDoesNotFit, { buffer := buffer ++ filler, order := .big }) := by
  intro steps
  have hsteps : ∀ s ∈ steps, s.Fits := by
    simp only [steps, List.forall_mem_cons]
    exact ⟨⟨.int 255, rfl, by decide⟩, ⟨by decide, .int 0x1234, rfl, by decide⟩, trivial,
      ⟨by decide, .bool true, rfl, by decide⟩, ⟨by decide, .int (2 ^ 32 - 1), rfl, by decide⟩,
      by simp⟩
  obtain ⟨buffer, hwrite, hread⟩ := read_written_back.1 .big steps hsteps
  have hlarge : ¬ (Datum.int (2 ^ 64)).Fits 8 := by
    rintro ⟨n, hn, _, hlt⟩
    cases hn
    exact absurd hlt (by decide)
  obtain ⟨filler, hlen, hstep⟩ :=
    (read_written_back.2 { buffer, order := .big }).2.2.2.1 _ 8 (by decide) hlarge
  exact ⟨buffer, hwrite, hread, filler, Int.ofNat_inj.mp hlen, hstep⟩

end Writer
end LuaBytecode
