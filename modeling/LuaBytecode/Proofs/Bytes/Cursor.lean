import LuaBytecode.Proofs.Bytes.Script
import LuaBytecode.Proofs.Slice

/-! Readers under any steps: the position never leaves the buffer, a step that fails does not move it, and
the steps that succeed take the bytes of the buffer one after the other. -/
namespace LuaBytecode

/-- The number that bytes build up one by one. In big order each byte moves those before it up by one
place, in little order each byte stands above those before it. -/
def ByteOrder.fold : ByteOrder → Bytes → Nat
  | .little, bytes => bytes.foldr (fun b n => b.toNat + 256 * n) 0
  | .big, bytes => bytes.foldl (fun n b => 256 * n + b.toNat) 0

namespace Unsigned

theorem value_eq_foldr (bytes : Bytes) :
    value bytes = bytes.foldr (fun b n => b.toNat + 256 * n) 0 := by
  induction bytes with
  | nil => rfl
  | cons b bytes ih => rw [value, ih, List.foldr_cons]

theorem decode_eq_fold (order : ByteOrder) (bytes : Bytes) :
    decode order bytes = order.fold bytes := by
  cases order with
  | little => exact value_eq_foldr bytes
  | big =>
    rw [decode, ByteOrder.arrange, value_eq_foldr, List.foldr_reverse, ByteOrder.fold]
    congr 1
    funext n b
    exact Nat.add_comm _ _

end Unsigned

namespace Reader
open Outcome

/-- The position lies in the buffer. -/
def Inside (r : Reader) : Prop := r.position ≤ r.buffer.length

/-- The reader with `count` more bytes behind it. -/
def past (r : Reader) (count : Nat) : Reader := { r with position := r.position + count }

/-- As many bytes are left as there are places between the position and the end. -/
theorem le_length_rest_iff {r : Reader} (h : r.Inside) {count : Int} :
    count ≤ r.rest.length ↔ r.position + count ≤ r.buffer.length := by
  have hrest : r.rest.length = r.buffer.length - r.position := List.length_drop
  rw [Inside] at h
  omega

theorem number_eq (r : Reader) (size : Nat) :
    r.number size =
      if size ≤ r.rest.length then .ok (r.order.fold (r.rest.take size), r.past size)
      else .error .bufferTooShort := by
  rw [number, Unsigned.read?_eq]
  split_ifs
  · simp only [Unsigned.decode_eq_fold]
    rfl
  · rfl

theorem raw_eq (r : Reader) (count : Int) :
    r.raw count =
      if 0 ≤ count ∧ count ≤ r.rest.length then
        .ok (r.rest.take count.toNat, r.past count.toNat)
      else .error .bufferTooShort := by
  rw [raw, Unsigned.split?_eq]
  by_cases hneg : count < 0
  · rw [if_pos hneg, if_neg (by omega)]
  · rw [if_neg hneg]
    by_cases hlen : count.toNat ≤ r.rest.length
    · rw [if_pos hlen, if_pos (by omega)]
      rfl
    · rw [if_neg hlen, if_neg (by omega)]

/-! What a step does, told by the bytes from the position on. -/

private theorem step_seek (r : Reader) (target : Int) :
    r.step (.seek target) =
      if 0 ≤ target ∧ target ≤ r.buffer.length then
        (.ok .nothing, { r with position := target.toNat })
      else (.error .bufferTooShort, r) := by
  rw [step, advance, seek]
  split_ifs <;> rfl

private theorem step_byte (r : Reader) :
    r.step .byte =
      if 1 ≤ r.rest.length then (.ok (.number (r.order.fold (r.rest.take 1))), r.past 1)
      else (.error .bufferTooShort, r) := by
  rw [step, advance, byte, number_eq]
  split_ifs <;> rfl

private theorem step_unsigned_bytes (r : Reader) (width : Width) :
    r.step (.unsigned width.bytes) =
      if width.bytes ≤ r.rest.length then
        (.ok (.number (r.order.fold (r.rest.take width.bytes))), r.past width.bytes)
      else (.error .bufferTooShort, r) := by
  rw [step, advance, unsigned, Width.ofBytes_bytes, ok_bind, number_eq]
  split_ifs <;> rfl

private theorem step_unsigned_of_not_mem (r : Reader) {width : Int} (h : width ∉ [1, 2, 4, 8]) :
    r.step (.unsigned width) = (.error (.unsupportedWidth width), r) := by
  rw [step, advance, unsigned, Width.ofBytes_of_not_mem h]
  rfl

private theorem step_raw (r : Reader) (count : Int) :
    r.step (.raw count) =
      if 0 ≤ count ∧ count ≤ r.rest.length then
        (.ok (.bytes (r.rest.take count.toNat)), r.past count.toNat)
      else (.error .bufferTooShort, r) := by
  rw [step, advance, raw_eq]
  split_ifs <;> rfl

private theorem step_skip (r : Reader) (count : Int) :
    r.step (.skip count) =
      if 0 ≤ count ∧ count ≤ r.rest.length then (.ok .nothing, r.past count.toNat)
      else (.error .bufferTooShort, r) := by
  rw [step, advance, raw_eq]
  split_ifs <;> rfl

private theorem step_raw_eq_ok {r r' : Reader} {count : Int} {reply : Reply}
    (h : r.step (.raw count) = (.ok reply, r')) :
    0 ≤ count ∧ count.toNat ≤ r.rest.length ∧ r' = r.past count.toNat ∧
      reply = .bytes (r.rest.take count.toNat) := by
  rw [step_raw] at h
  split_ifs at h with hcount
  · cases h
    exact ⟨hcount.1, Int.toNat_le.mpr hcount.2, rfl, rfl⟩
  · cases h

/-- Skipping is reading a run of bytes and forgetting it. -/
theorem step_skip_eq_ok {r r' : Reader} {count : Int} {reply : Reply}
    (h : r.step (.skip count) = (.ok reply, r')) :
    r.step (.raw count) = (.ok (.bytes (r.rest.take count.toNat)), r') := by
  rw [step_skip] at h
  split_ifs at h with hcount
  · cases h
    rw [step_raw, if_pos hcount]
  · cases h

/-- Where a number is read, a run of bytes of its width could be read instead, and the number is what
these bytes build up. -/
theorem step_unsigned_eq_ok {r r' : Reader} {width : Int} {reply : Reply}
    (h : r.step (.unsigned width) = (.ok reply, r')) :
    r.step (.raw width) = (.ok (.bytes (r.rest.take width.toNat)), r') ∧
      reply = .number (r.order.fold (r.rest.take width.toNat)) := by
  by_cases hwidth : width ∈ [1, 2, 4, 8]
  · obtain ⟨width, rfl⟩ := Width.exists_bytes_iff.mpr hwidth
    rw [step_unsigned_bytes] at h
    split_ifs at h with hsize
    · cases h
      refine ⟨?_, rfl⟩
      rw [step_raw, if_pos ⟨Int.natCast_nonneg _, Int.ofNat_le.mpr hsize⟩, Int.toNat_natCast]
    · cases h
  · rw [step_unsigned_of_not_mem r hwidth] at h
    cases h

private theorem step_peek_snd (r : Reader) (distance : Int) : (r.step (.peek distance)).2 = r := by
  rw [step, advance]
  cases r.peek distance <;> rfl

/-- The fault that stands in the way of a step, told by the position and the length of the buffer. -/
def obstacle? (r : Reader) : Step → Option Fault
  | .position => none
  | .seek target =>
    if 0 ≤ target ∧ target ≤ r.buffer.length then none else some .bufferTooShort
  | .peek distance =>
    if r.buffer.length ≤ r.position + distance then some .bufferTooShort
    else if r.position + distance < -r.buffer.length then some .indexOutOfRange
    else none
  | .byte => if r.position + 1 ≤ r.buffer.length then none else some .bufferTooShort
  | .unsigned width =>
    if width ∉ [1, 2, 4, 8] then some (.unsupportedWidth width)
    else if r.position + width ≤ r.buffer.length then none
    else some .bufferTooShort
  | .raw count | .skip count =>
    if 0 ≤ count ∧ r.position + count ≤ r.buffer.length then none else some .bufferTooShort

private theorem fault?_peek (r : Reader) (distance : Int) :
    fault? (r.step (.peek distance)).1 = r.obstacle? (.peek distance) := by
  rw [step, advance, obstacle?, peek]
  by_cases hlong : (r.buffer.length : Int) ≤ r.position + distance
  · rw [if_pos hlong, if_pos (by omega)]
    rfl
  · rw [if_neg hlong, if_neg (by omega)]
    cases hget : Index.get? r.buffer (r.position + distance) with
    | none =>
      have hlow := Index.get?_eq_none_iff.mp hget
      rw [if_pos (by omega)]
      rfl
    | some byte =>
      have hlow : ¬ Index.get? r.buffer (r.position + distance) = none := by simp [hget]
      rw [Index.get?_eq_none_iff] at hlow
      rw [if_neg (by omega)]
      rfl

/-- Where the position lies in the buffer, a step fails with what stands in its way and else succeeds. -/
theorem fault?_step {r : Reader} (h : r.Inside) (s : Step) : fault? (r.step s).1 = r.obstacle? s := by
  cases s with
  | position => rfl
  | seek target =>
    rw [step_seek, obstacle?]
    split_ifs <;> rfl
  | peek distance => exact fault?_peek r distance
  | byte =>
    have hroom : 1 ≤ r.rest.length ↔ r.position + 1 ≤ r.buffer.length := by
      have hone : (1 : Int) ≤ r.rest.length ↔ r.position + 1 ≤ (r.buffer.length : Int) :=
        le_length_rest_iff h
      exact_mod_cast hone
    rw [step_byte, obstacle?]
    simp only [hroom]
    split_ifs <;> rfl
  | unsigned width =>
    rw [obstacle?]
    by_cases hwidth : width ∈ [1, 2, 4, 8]
    · obtain ⟨width, rfl⟩ := Width.exists_bytes_iff.mpr hwidth
      rw [step_unsigned_bytes, if_neg (not_not.mpr hwidth)]
      simp only [← Int.ofNat_le, le_length_rest_iff h]
      split_ifs <;> rfl
    · rw [step_unsigned_of_not_mem r hwidth, if_pos hwidth]
      rfl
  | raw count =>
    rw [step_raw, obstacle?]
    simp only [le_length_rest_iff h]
    split_ifs <;> rfl
  | skip count =>
    rw [step_skip, obstacle?]
    simp only [le_length_rest_iff h]
    split_ifs <;> rfl

/-- How many bytes a step takes if it succeeds. -/
def Step.size : Step → Nat
  | .byte => 1
  | .unsigned width => width.toNat
  | .raw count | .skip count => count.toNat
  | .position | .seek _ | .peek _ => 0

/-- The bytes that a reader takes in a step. A step that fails takes none. -/
def taken (r : Reader) (s : Step) : Bytes :=
  match (r.step s).1 with
  | .ok _ => r.rest.take s.size
  | .error _ => []

/-- The bytes that a reader takes in a run of steps, in their order. -/
def takenAll (r : Reader) : List Step → Bytes
  | [] => []
  | s :: steps => r.taken s ++ (r.step s).2.takenAll steps

/-- A step that succeeds goes to a place of the buffer, or past as many bytes as it takes, which are all
there. -/
inductive Moves (r : Reader) : Step → Reader → Prop
  | placed {target : Int} (hlow : 0 ≤ target) (hhigh : target ≤ r.buffer.length) :
    Moves r (.seek target) { r with position := target.toNat }
  | passed {s : Step} (hseek : ∀ target, s ≠ .seek target) (hsize : s.size ≤ r.rest.length) :
    Moves r s (r.past s.size)

/-- A step that takes nothing and goes nowhere. -/
theorem moves_self (r : Reader) {s : Step} (hseek : ∀ target, s ≠ .seek target) (hsize : s.size = 0) :
    r.Moves s r := by
  have hpast := Moves.passed (r := r) hseek (hsize ▸ Nat.zero_le _)
  rwa [hsize] at hpast

private theorem moves_of_step {r r' : Reader} {s : Step} {reply : Reply} (h : r.step s = (.ok reply, r')) :
    r.Moves s r' := by
  cases s with
  | position =>
    cases h
    exact moves_self r (by simp) rfl
  | seek target =>
    rw [step_seek] at h
    split_ifs at h with hrange
    · cases h
      exact .placed hrange.1 hrange.2
    · cases h
  | peek distance =>
    have hstay : r' = r := by
      rw [← step_peek_snd r distance, h]
    rw [hstay]
    exact moves_self r (by simp) rfl
  | byte =>
    rw [step_byte] at h
    split_ifs at h with hsize
    · cases h
      exact .passed (by simp) hsize
    · cases h
  | unsigned width =>
    obtain ⟨_, hsize, rfl, _⟩ := step_raw_eq_ok (step_unsigned_eq_ok h).1
    exact .passed (by simp) hsize
  | raw count =>
    obtain ⟨_, hsize, rfl, _⟩ := step_raw_eq_ok h
    exact .passed (by simp) hsize
  | skip count =>
    obtain ⟨_, hsize, rfl, _⟩ := step_raw_eq_ok (step_skip_eq_ok h)
    exact .passed (by simp) hsize

theorem step_of_error {r : Reader} {s : Step} {fault : Fault} (h : (r.step s).1 = .error fault) :
    (r.step s).2 = r := by
  rw [step] at h ⊢
  cases hadvance : r.advance s with
  | ok result =>
    rw [hadvance] at h
    cases h
  | error fault' => rfl

/-- A reader of a buffer in a byte order, at a position in the buffer. -/
structure Reads (buffer : Bytes) (order : ByteOrder) (r : Reader) : Prop where
  buffer_eq : r.buffer = buffer
  order_eq : r.order = order
  inside : r.Inside

private theorem Moves.reads {r r' : Reader} {s : Step} (h : r.Moves s r') (hinside : r.Inside) :
    Reads r.buffer r.order r' := by
  cases h with
  | placed hlow hhigh => exact ⟨rfl, rfl, Int.toNat_le.mpr hhigh⟩
  | passed _ hsize =>
    have hend : r.position + s.size ≤ r.buffer.length := by
      exact_mod_cast (le_length_rest_iff hinside).mp (Int.ofNat_le.mpr hsize)
    exact ⟨rfl, rfl, hend⟩

private theorem reads_step {r : Reader} (h : r.Inside) (s : Step) :
    Reads r.buffer r.order (r.step s).2 := by
  rcases hstep : r.step s with ⟨fault | reply, r'⟩
  · have hsame := step_of_error (congrArg Prod.fst hstep)
    rw [hstep] at hsame
    rw [hsame]
    exact ⟨rfl, rfl, h⟩
  · exact (moves_of_step hstep).reads h

private theorem reads_run {r : Reader} (h : r.Inside) (steps : List Step) :
    Reads r.buffer r.order (r.run steps).2 := by
  induction steps generalizing r with
  | nil => exact ⟨rfl, rfl, h⟩
  | cons s steps ih =>
    have hstep := reads_step h s
    have hrun := ih hstep.inside
    rwa [hstep.buffer_eq, hstep.order_eq] at hrun

/-- The bytes before the position grow by what is taken, unless the reader is sent elsewhere. -/
theorem take_append_taken (r : Reader) {s : Step} (hseek : ∀ target, s ≠ .seek target) :
    r.buffer.take r.position ++ r.taken s = r.buffer.take (r.step s).2.position := by
  rw [taken]
  rcases hstep : r.step s with ⟨fault | reply, r'⟩
  · have hsame := step_of_error (congrArg Prod.fst hstep)
    rw [hstep] at hsame
    rw [hsame]
    exact List.append_nil _
  · cases moves_of_step hstep with
    | placed => exact absurd rfl (hseek _)
    | passed => exact List.take_add.symm

private theorem take_append_takenAll {r : Reader} (h : r.Inside) {steps : List Step}
    (hseek : ∀ s ∈ steps, ∀ target, s ≠ .seek target) :
    r.buffer.take r.position ++ r.takenAll steps = r.buffer.take (r.run steps).2.position := by
  induction steps generalizing r with
  | nil => exact List.append_nil _
  | cons s steps ih =>
    rw [List.forall_mem_cons] at hseek
    have hstep := reads_step h s
    have hrun := ih hstep.inside hseek.2
    -- The bytes before the new position are those before the old one and what this step took.
    rw [hstep.buffer_eq, ← take_append_taken r hseek.1, List.append_assoc] at hrun
    exact hrun

end Reader

/-! Readers that move in place: each read makes its checks and then moves the reader. -/
namespace Cursor
open Reader (Step Reply)
open InPlace

def seek (target : Int) : InPlace Reader Unit := do
  let r ← get
  if ¬ (0 ≤ target ∧ target ≤ r.buffer.length) then throw .bufferTooShort
  set { r with position := target.toNat }

def number (size : Nat) : InPlace Reader Nat := do
  let r ← get
  if (r.buffer.length : Int) - r.position < size then throw .bufferTooShort
  set (r.past size)
  return r.order.fold (r.rest.take size)

def raw (count : Int) : InPlace Reader Bytes := do
  let r ← get
  if count < 0 ∨ (r.buffer.length : Int) - r.position < count then throw .bufferTooShort
  set (r.past count.toNat)
  return r.rest.take count.toNat

/-- A step in place. -/
def perform : Step → InPlace Reader Reply
  | .position => do return .number (← get).position
  | .seek target => do
    seek target
    return .nothing
  | .peek distance => do return .number (← (← get).peek distance).toNat
  | .byte => do return .number (← number 1)
  | .unsigned width => do
    let width ← Width.ofBytes width
    return .number (← number width.bytes)
  | .raw count => do return .bytes (← raw count)
  | .skip count => do
    let _ ← raw count
    return .nothing

variable {r : Reader}

theorem run_seek (target : Int) :
    run (seek target) r =
      if 0 ≤ target ∧ target ≤ r.buffer.length then (.ok (), { r with position := target.toNat })
      else (.error .bufferTooShort, r) := by
  rw [seek]
  simp only [run_bind, run_get, run_ite, run_throw, run_set]
  split_ifs <;> rfl

theorem run_number (h : r.Inside) (size : Nat) :
    run (number size) r =
      if size ≤ r.rest.length then (.ok (r.order.fold (r.rest.take size)), r.past size)
      else (.error .bufferTooShort, r) := by
  -- The difference is taken among integers, so this needs the position to lie in the buffer.
  have hshort : (r.buffer.length : Int) - r.position < size ↔ ¬ size ≤ r.rest.length := by
    rw [← Int.ofNat_le, Reader.le_length_rest_iff h]
    omega
  rw [number]
  simp only [run_bind, run_get, run_ite, run_throw, run_pure, run_set, hshort]
  split_ifs <;> rfl

theorem run_raw (h : r.Inside) (count : Int) :
    run (raw count) r =
      if 0 ≤ count ∧ count ≤ r.rest.length then
        (.ok (r.rest.take count.toNat), r.past count.toNat)
      else (.error .bufferTooShort, r) := by
  have hshort : count < 0 ∨ (r.buffer.length : Int) - r.position < count ↔
      ¬ (0 ≤ count ∧ count ≤ r.rest.length) := by
    rw [Reader.le_length_rest_iff h]
    omega
  rw [raw]
  simp only [run_bind, run_get, run_ite, run_throw, run_pure, run_set, hshort]
  split_ifs <;> rfl

/-- In place a step does what it does as a whole: nothing fails after the reader has moved. -/
theorem run_perform (h : r.Inside) (s : Step) : run (perform s) r = r.step s := by
  cases s with
  | position => rfl
  | seek target =>
    simp only [perform, run_bind, run_seek, Reader.step_seek]
    split_ifs <;> rfl
  | peek distance =>
    simp only [perform, run_bind, run_get, run_lift, Reader.step, Reader.advance]
    cases r.peek distance <;> rfl
  | byte =>
    simp only [perform, run_bind, run_number h, Reader.step_byte]
    split_ifs <;> rfl
  | unsigned width =>
    by_cases hwidth : width ∈ [1, 2, 4, 8]
    · obtain ⟨width, rfl⟩ := Width.exists_bytes_iff.mpr hwidth
      simp only [perform, run_bind, run_lift, Width.ofBytes_bytes, run_number h,
        Reader.step_unsigned_bytes]
      split_ifs <;> rfl
    · simp only [perform, run_bind, run_lift, Width.ofBytes_of_not_mem hwidth,
        Reader.step_unsigned_of_not_mem r hwidth]
  | raw count =>
    simp only [perform, run_bind, run_raw h, Reader.step_raw]
    split_ifs <;> rfl
  | skip count =>
    simp only [perform, run_bind, run_raw h, Reader.step_skip]
    split_ifs <;> rfl

end Cursor

namespace Reader
open Outcome

/-- After any steps the reader is still one of its buffer and stands in it. Carried out in place, the next
step does what it does as a whole: it fails exactly with what stands in its way and then leaves the
reader as it was. A look moves nothing. A number that is read is what the bytes of its width build up,
and these are the bytes that a run of that length gives; runs that are read or skipped lie at the
position and move it by their length. So without jumps the bytes taken, one after the other, are the
buffer up to the position. -/
theorem position_after_run (buffer : Bytes) (order : ByteOrder) (steps : List Step) :
    let r := (run { buffer, order } steps).2
    (r.buffer = buffer ∧ r.order = order ∧ r.position ≤ buffer.length) ∧
    (∀ s, let result := InPlace.run (Cursor.perform s) r
      result = r.step s ∧ fault? result.1 = r.obstacle? s ∧
        ∀ fault, result.1 = .error fault → result.2 = r) ∧
    (∀ distance, (r.step (.peek distance)).2 = r) ∧
    r.step .byte = r.step (.unsigned 1) ∧
    (∀ width reply r', r.step (.unsigned width) = (.ok reply, r') →
      (r'.position : Int) = r.position + width ∧
      ∃ bytes, bytes = (buffer.drop r.position).take width.toNat ∧
        r.step (.raw width) = (.ok (.bytes bytes), r') ∧ reply = .number (order.fold bytes)) ∧
    (∀ count reply r', r.step (.raw count) = (.ok reply, r') →
      0 ≤ count ∧ (r'.position : Int) = r.position + count ∧
        reply = .bytes ((buffer.drop r.position).take count.toNat)) ∧
    (∀ count reply r', r.step (.skip count) = (.ok reply, r') →
      0 ≤ count ∧ (r'.position : Int) = r.position + count) ∧
    ((∀ s ∈ steps, ∀ target, s ≠ .seek target) →
      takenAll { buffer, order } steps = buffer.take r.position) := by
  intro r
  have hstart : Inside { buffer, order } := Nat.zero_le _
  have hr : Reads buffer order r := reads_run hstart steps
  have hrest : r.rest = buffer.drop r.position := by rw [rest, hr.buffer_eq]
  have hpast {count : Int} (hcount : 0 ≤ count) :
      ((r.past count.toNat).position : Int) = r.position + count := by
    show ((r.position + count.toNat : Nat) : Int) = _
    omega
  refine ⟨⟨hr.buffer_eq, hr.order_eq, ?_⟩, ?_, step_peek_snd r, ?_, ?_, ?_, ?_, ?_⟩
  · rw [← hr.buffer_eq]
    exact hr.inside
  · intro s result
    have hstep : result = r.step s := Cursor.run_perform hr.inside s
    refine ⟨hstep, ?_, ?_⟩
    · rw [hstep]
      exact fault?_step hr.inside s
    · rw [hstep]
      exact fun fault => step_of_error
  · rw [step_byte]
    exact (step_unsigned_bytes r .one).symm
  · intro width reply r' h
    obtain ⟨hraw, rfl⟩ := step_unsigned_eq_ok h
    obtain ⟨hwidth, _, rfl, _⟩ := step_raw_eq_ok hraw
    refine ⟨hpast hwidth, _, rfl, ?_, ?_⟩
    · rw [← hrest]
      exact hraw
    · rw [← hrest, hr.order_eq]
  · intro count reply r' h
    obtain ⟨hcount, _, rfl, rfl⟩ := step_raw_eq_ok h
    exact ⟨hcount, hpast hcount, by rw [hrest]⟩
  · intro count reply r' h
    obtain ⟨hcount, _, rfl, _⟩ := step_raw_eq_ok (step_skip_eq_ok h)
    exact ⟨hcount, hpast hcount⟩
  · intro hseek
    have htaken := take_append_takenAll hstart hseek
    rwa [List.take_zero, List.nil_append] at htaken

/-- Of four steps the reads of three and of nine bytes fail, and the look back moves nothing: one byte is
taken, and two bytes then read as a number are those that a run of two bytes gives. -/
theorem position_after_run_mixed :
    let start : Reader := { buffer := [1, 2, 3, 4, 5], order := .big }
    let steps : List Step := [.byte, .unsigned 3, .raw 9, .peek (-2)]
    let r := (run start steps).2
    (∀ s ∈ steps, ∀ target, s ≠ .seek target) ∧ takenAll start steps = [1] ∧
      r.step (.raw 9) = (.error .bufferTooShort, r) ∧
      ∃ r', r.step (.unsigned 2) = (.ok (.number 0x0203), r') ∧ (r'.position : Int) = 1 + 2 ∧
        r.step (.raw 2) = (.ok (.bytes [2, 3]), r') := by
  intro start steps r
  obtain ⟨_, hstep, _, _, hunsigned, _, _, htaken⟩ := position_after_run [1, 2, 3, 4, 5] .big steps
  have hseek : ∀ s ∈ steps, ∀ target, s ≠ .seek target := by simp [steps]
  have hread : r.step (.unsigned 2) = (.ok (.number 0x0203), { start with position := 3 }) := rfl
  have hshort : (r.step (.raw 9)).1 = .error .bufferTooShort := rfl
  obtain ⟨hposition, bytes, rfl, hraw, _⟩ := hunsigned 2 _ _ hread
  exact ⟨hseek, htaken hseek, Prod.ext hshort ((hstep (.raw 9)).2.2 _ hshort), _, hread, hposition, hraw⟩

end Reader
end LuaBytecode
