import LuaBytecode.Proofs.Bytes.Script
import LuaBytecode.Proofs.Fault
import LuaBytecode.Proofs.Session.Instructions
import LuaBytecode.Proofs.WordArray.Construction

/-! Words and their bytes on a machine: every word has four bytes, every four bytes are a word, wherever
they stand, and an instruction can be given as either. What cannot be read is refused for its place
first, then for its width, and last for want of bytes. -/
namespace LuaBytecode

namespace Unsigned

/-- The other byte order puts the same bytes the other way round. -/
theorem encode_of_order_ne {order order' : ByteOrder} (h : order' ≠ order) (size n : Nat) :
    encode order' size n = (encode order size n).reverse := by
  cases order with
  | little =>
    cases order' with
    | little => exact absurd rfl h
    | big => rfl
  | big =>
    cases order' with
    | little => exact (List.reverse_reverse _).symm
    | big => exact absurd rfl h

private theorem decode_take_lt (order : ByteOrder) (bytes : Bytes) (size : Nat) :
    decode order (bytes.take size) < 2 ^ (8 * size) := by
  have hlt := decode_lt order (bytes.take size)
  have hpow : 256 ^ (bytes.take size).length ≤ 256 ^ size :=
    Nat.pow_le_pow_right (by decide) (List.length_take_le ..)
  rw [pow_mul]
  exact Nat.lt_of_lt_of_le hlt hpow

end Unsigned

namespace Profile
open Outcome

/-- The size of the number that a width asks for: a width of zero asks for a word. -/
def readSize (width : Int) : Int := if width = 0 then 4 else width

/-- A number is read from the bytes at its offset, if there is such a place, such a width and that many
bytes. -/
theorem numberAt_eq (p : Profile) (data : Bytes) (offset width : Int) :
    p.numberAt data offset width =
      if offset < 0 ∨ data.length < offset then
        .error (.numberBeyondBuffer (readSize width) offset data.length)
      else if readSize width ∉ [1, 2, 4, 8] then .error (.unsupportedWidth (readSize width))
      else if data.length < offset + readSize width then
        .error (.numberBeyondBuffer (readSize width) offset data.length)
      else .ok (Unsigned.decode p.order ((data.drop offset.toNat).take (readSize width).toNat)) := by
  have hword : (Word.size : Int) = 4 := rfl
  rw [numberAt, hword, ← readSize]
  by_cases hplace : offset < 0 ∨ data.length < offset
  · rw [if_pos hplace, if_pos hplace]
  rw [if_neg hplace, if_neg hplace]
  cases hwidth : Width.ofBytes? (readSize width) with
  | none =>
    have hmem : readSize width ∉ [1, 2, 4, 8] := by
      rw [← Width.exists_bytes_iff]
      rintro ⟨w, hw⟩
      rw [Width.ofBytes?_eq_some_iff.mpr hw] at hwidth
      cases hwidth
    rw [if_pos hmem]
  | some w =>
    have hbytes := Width.ofBytes?_eq_some_iff.mp hwidth
    have hmem : readSize width ∈ [1, 2, 4, 8] := Width.exists_bytes_iff.mp ⟨w, hbytes⟩
    have hroom : w.bytes ≤ (data.drop offset.toNat).length ↔ ¬ data.length < offset + w.bytes := by
      rw [List.length_drop]
      omega
    rw [if_neg (not_not.mpr hmem), hbytes, Int.toNat_natCast]
    dsimp only
    rw [Unsigned.read?_eq, if_congr hroom rfl rfl, ite_not]
    split_ifs <;> rfl

/-- Wherever there are enough bytes, they are read as a word. -/
theorem numberAt_word (p : Profile) {data : Bytes} {offset : Int} (hstart : 0 ≤ offset)
    (hend : offset + Word.size ≤ data.length) :
    p.numberAt data offset 0 =
      .ok (Unsigned.decode p.order ((data.drop offset.toNat).take Word.size)) := by
  have hsize : readSize 0 = Word.size := rfl
  rw [numberAt_eq, hsize, if_neg (by omega), if_neg (by decide), if_neg (by omega),
    Int.toNat_natCast]

/-- The same bytes are read alike wherever they stand. -/
theorem numberAt_append (p : Profile) {bytes : Bytes} (hlen : bytes.length = Word.size)
    (front back : Bytes) :
    p.numberAt (front ++ bytes ++ back) front.length 0 = .ok (Unsigned.decode p.order bytes) := by
  have hbytes : ((front ++ bytes ++ back).drop front.length).take Word.size = bytes := by
    rw [List.append_assoc, List.drop_left, List.take_left' hlen]
  rw [p.numberAt_word (Int.natCast_nonneg _) (by simp [hlen]), Int.toNat_natCast, hbytes]

theorem numberAt_zero (p : Profile) {bytes : Bytes} (hlen : bytes.length = Word.size) :
    p.numberAt bytes 0 0 = .ok (Unsigned.decode p.order bytes) := by
  have hread := p.numberAt_append hlen [] []
  rwa [List.nil_append, List.append_nil] at hread

theorem decode_lt_bound (p : Profile) {bytes : Bytes} (hlen : bytes.length = Word.size) :
    Unsigned.decode p.order bytes < Word.bound := by
  have hlt := Unsigned.decode_lt p.order bytes
  rwa [hlen, ← Word.bound_eq] at hlt

theorem datumBytes_natCast (p : Profile) {word : Nat} (h : word < Word.bound) :
    p.datumBytes (.int word) = .ok (Unsigned.encode p.order Word.size word) := by
  rw [datumBytes, Word.ofDatum_natCast h, ok_bind, p.wordBytes_eq h]

/-- Four bytes are the bytes of the word that they are read as. -/
theorem datumBytes_decode (p : Profile) {bytes : Bytes} (hlen : bytes.length = Word.size) :
    p.datumBytes (.int (Unsigned.decode p.order bytes)) = .ok bytes := by
  rw [p.datumBytes_natCast (p.decode_lt_bound hlen), ← hlen, Unsigned.encode_decode]

/-- Exactly the words have bytes, and these are the bytes that are read as the word. -/
theorem datumBytes_eq_ok_iff {p : Profile} {datum : Datum} {bytes : Bytes} :
    p.datumBytes datum = .ok bytes ↔
      bytes.length = Word.size ∧ ∃ word : Nat, datum = .int word ∧ p.numberAt bytes 0 0 = .ok word := by
  constructor
  · intro h
    obtain ⟨word, hword, hbytes⟩ := bind_eq_ok_iff.mp h
    obtain ⟨hlt, rfl⟩ := Word.ofDatum_eq_ok_iff.mp hword
    rw [p.wordBytes_eq hlt, Except.ok.injEq] at hbytes
    have hlen : bytes.length = Word.size := by
      rw [← hbytes, Unsigned.length_encode]
    rw [Word.bound_eq] at hlt
    refine ⟨hlen, word, rfl, ?_⟩
    rw [p.numberAt_zero hlen, ← hbytes, Unsigned.decode_encode p.order hlt]
  · rintro ⟨hlen, word, rfl, hread⟩
    rw [p.numberAt_zero hlen, Except.ok.injEq] at hread
    rw [← hread]
    exact p.datumBytes_decode hlen

/-- A machine of the other byte order writes the bytes of a word the other way round. -/
theorem datumBytes_of_order_ne {p q : Profile} (h : q.order ≠ p.order) (datum : Datum) :
    q.datumBytes datum = (p.datumBytes datum).map List.reverse := by
  rw [datumBytes, datumBytes]
  cases hword : Word.ofDatum datum with
  | error fault => rfl
  | ok word =>
    have hlt := Word.ofDatum_lt hword
    rw [ok_bind, ok_bind, q.wordBytes_eq hlt, p.wordBytes_eq hlt, Unsigned.encode_of_order_ne h]
    rfl

end Profile

namespace Session
variable {t : Settings} {s s₁ : Session} {p : Profile}

/-- Four bytes are taken for the word that the profile of this machine reads from them. -/
theorem run_wordOf_of_mem {bytes : Bytes} (hlen : bytes.length = Word.size)
    (hp : run hostProfile t s = (.ok p, s₁)) {datum : Datum}
    (hdatum : datum ∈ [.bytes bytes, .byteArray bytes]) :
    run (wordOf datum) t s = (.ok (Unsigned.decode p.order bytes), s₁) := by
  have hlt := p.decode_lt_bound hlen
  have hbytes : Unsigned.encode p.order Word.size (Unsigned.decode p.order bytes) = bytes := by
    rw [← hlen, Unsigned.encode_decode]
  rcases List.mem_pair.mp hdatum with rfl | rfl
  · have hrun := run_wordOf_bytes hlt hp
    rwa [hbytes] at hrun
  · have hrun := run_wordOf_byteArray hlt hp
    rwa [hbytes] at hrun

/-- On every machine words and four bytes stand for one another. Exactly the words have bytes, four of
them, from which the word is read back at any place; four bytes at any place are read as a word that has
these bytes. A machine of the other byte order has the bytes reversed. On this machine an instruction
can be given by its word or by the bytes of the word. A number is refused for an offset outside the
data, then for a width there is none of, then for want of bytes, and else it fits its width; the first
of these faults is about an instruction word unless the offset or the width has too many digits to be
written in the wording. -/
theorem words_and_bytes (p : Profile) :
    (∀ datum bytes, p.datumBytes datum = .ok bytes ↔
      bytes.length = 4 ∧ ∃ word : Nat, datum = .int word ∧ p.numberAt bytes 0 0 = .ok word) ∧
    (∀ word : Nat, word < 2 ^ 32 → ∃ bytes, p.datumBytes (.int word) = .ok bytes ∧
      ∀ front back, p.numberAt (front ++ bytes ++ back) front.length 0 = .ok word) ∧
    (∀ (data : Bytes) (offset : Int), 0 ≤ offset → offset + 4 ≤ data.length →
      ∃ word : Nat, word < 2 ^ 32 ∧ p.numberAt data offset 0 = .ok word ∧
        p.datumBytes (.int word) = .ok ((data.drop offset.toNat).take 4)) ∧
    (∀ q : Profile, q.order ≠ p.order →
      ∀ datum, q.datumBytes datum = (p.datumBytes datum).map List.reverse) ∧
    (∀ t s s₁, run hostProfile t s = (.ok p, s₁) → ∀ bytes : Bytes, bytes.length = 4 →
      ∃ word : Nat, p.numberAt bytes 0 0 = .ok word ∧
        ∀ datum ∈ [Datum.bytes bytes, .byteArray bytes],
          run (decode datum) t s = ((run (decode (.int word)) t s).1, s₁) ∧
          run (disassemble datum) t s = ((run (disassemble (.int word)) t s).1, s₁)) ∧
    ∀ (data : Bytes) (offset width size : Int), size = (if width = 0 then 4 else width) →
      (offset < 0 ∨ data.length < offset →
        ∃ fault, p.numberAt data offset width = .error fault ∧
          fault.category =
            if size.natAbs < 10 ^ Text.maxDigits ∧ offset.natAbs < 10 ^ Text.maxDigits
            then .instructionWord else .value) ∧
      (0 ≤ offset → offset ≤ data.length →
        (size ∉ [1, 2, 4, 8] →
          ∃ fault, p.numberAt data offset width = .error fault ∧ fault.category = .value) ∧
        (size ∈ [1, 2, 4, 8] → data.length < offset + size →
          ∃ fault, p.numberAt data offset width = .error fault ∧
            fault.category = .instructionWord) ∧
        (size ∈ [1, 2, 4, 8] → offset + size ≤ data.length →
          ∃ n, p.numberAt data offset width = .ok n ∧ n < 2 ^ (8 * size.toNat))) := by
  refine ⟨fun datum bytes => Profile.datumBytes_eq_ok_iff, ?_, ?_,
    fun q hq datum => Profile.datumBytes_of_order_ne hq datum, ?_, ?_⟩
  · intro word hword
    refine ⟨_, p.datumBytes_natCast hword, fun front back => ?_⟩
    rw [p.numberAt_append (Unsigned.length_encode ..), Unsigned.decode_encode p.order hword]
  · intro data offset hstart hend
    have hlen : ((data.drop offset.toNat).take 4).length = 4 := by
      rw [List.length_take, List.length_drop]
      omega
    exact ⟨_, p.decode_lt_bound hlen, p.numberAt_word hstart hend, p.datumBytes_decode hlen⟩
  · intro t s s₁ hp bytes hlen
    have hint := run_wordOf_int (p.decode_lt_bound hlen) t s
    refine ⟨_, p.numberAt_zero hlen, fun datum hdatum => ?_⟩
    have hbytes := run_wordOf_of_mem hlen hp hdatum
    rw [run_decode hbytes, run_decode hint, run_disassemble hbytes, run_disassemble hint]
    exact ⟨rfl, rfl⟩
  · intro data offset width size hsize
    have hread := p.numberAt_eq data offset width
    rw [Profile.readSize, ← hsize] at hread
    refine ⟨?_, fun hstart hend => ⟨?_, ?_, ?_⟩⟩
    · intro houtside
      rw [hread, if_pos houtside]
      exact ⟨_, rfl, if_congr (Fault.isWorded_numberBeyondBuffer_iff houtside) rfl rfl⟩
    · intro hwidth
      rw [hread, if_neg (by omega), if_pos hwidth]
      exact ⟨_, rfl, ite_self _⟩
    · intro hwidth hshort
      rw [hread, if_neg (by omega), if_neg (not_not.mpr hwidth), if_pos hshort]
      have hsmall : size.natAbs < 100 := by
        simp only [List.mem_cons, List.not_mem_nil, or_false] at hwidth
        omega
      exact ⟨_, rfl, Fault.category_of_isWorded
        (Fault.isWorded_numberBeyondBuffer (Text.lt_pow_maxDigits hsmall) hstart hend)⟩
    · intro hwidth hroom
      rw [hread, if_neg (by omega), if_neg (not_not.mpr hwidth), if_neg (Int.not_lt.mpr hroom)]
      exact ⟨_, rfl, Unsigned.decode_take_lt ..⟩

/-- The bytes of an instruction in the middle of others and on a machine of the other byte order; the
instruction by its bytes, on a machine that is not known yet; and a read that fails for its place, though
there is no such width either. -/
theorem words_and_bytes_return :
    Profile.numberAt ⟨.little, .four, .eight, 8, 0⟩ [9, 0x1f, 0x00, 0x80, 0x00, 7] 1 0 = .ok 0x80001f ∧
    Profile.datumBytes ⟨.big, .four, .eight, 8, 0⟩ (.int 0x80001f) = .ok [0x00, 0x80, 0x00, 0x1f] ∧
    (run (disassemble (.byteArray [0x1f, 0x00, 0x80, 0x00])) ⟨false, false, none⟩ {}).1 =
      .ok "RETURN 0 1" ∧
    ∃ fault, Profile.numberAt ⟨.little, .four, .eight, 8, 0⟩ [1, 2, 3] 4 3 = .error fault ∧
      fault.category = .instructionWord := by
  obtain ⟨_, hread, _, hreverse, hinstruction, hchecks⟩ := words_and_bytes ⟨.little, .four, .eight, 8, 0⟩
  obtain ⟨fault, hfault, hcategory⟩ := (hchecks [1, 2, 3] 4 3 3 rfl).1 (.inr (by decide))
  have hdigits : Int.natAbs 3 < 10 ^ Text.maxDigits ∧ Int.natAbs 4 < 10 ^ Text.maxDigits :=
    ⟨Text.lt_pow_maxDigits (by decide), Text.lt_pow_maxDigits (by decide)⟩
  rw [if_pos hdigits] at hcategory
  refine ⟨?_, ?_, ?_, fault, hfault, hcategory⟩
  · obtain ⟨bytes, hbytes, hplaces⟩ := hread 0x80001f (by decide)
    cases hbytes
    exact hplaces [9] [7]
  · rw [hreverse ⟨.big, .four, .eight, 8, 0⟩ (by decide)]
    rfl
  · obtain ⟨word, hword, hsame⟩ := hinstruction ⟨false, false, none⟩ {} _ rfl [0x1f, 0x00, 0x80, 0x00] rfl
    cases hword
    rw [(hsame _ (by simp)).2]
    decide +kernel

/-- An offset of 4301 digits is as far beyond the data as any other, but its fault is one about a
value. -/
theorem numberAt_unwritable_offset :
    ∃ fault, Profile.numberAt ⟨.little, .four, .eight, 8, 0⟩ [0, 0, 0, 0] (10 ^ Text.maxDigits) 0 =
      .error fault ∧ fault.category = .value := by
  have hbeyond : (([0, 0, 0, 0] : Bytes).length : Int) < 10 ^ Text.maxDigits := by
    exact_mod_cast Text.lt_pow_maxDigits (show 4 < 100 by decide)
  rw [Profile.numberAt_eq, if_pos (.inr hbeyond)]
  refine ⟨_, rfl, Fault.category_of_not_isWorded ?_⟩
  rw [Fault.isWorded_numberBeyondBuffer_iff (.inr hbeyond), Int.natAbs_pow,
    show (10 : Int).natAbs = 10 from rfl]
  exact fun h => lt_irrefl (10 ^ Text.maxDigits) h.2

end Session
end LuaBytecode
