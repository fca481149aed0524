import LuaBytecode.Bytes.Unsigned
import LuaBytecode.Proofs.Bits

/-! Unsigned numbers and their bytes: writing and reading are inverse in both directions, for every
size and byte order, whatever bytes follow. -/
namespace LuaBytecode

namespace ByteOrder

@[simp] theorem length_arrange (order : ByteOrder) (bytes : Bytes) :
    (order.arrange bytes).length = bytes.length := by
  cases order <;> simp [arrange]

@[simp] theorem arrange_arrange (order : ByteOrder) (bytes : Bytes) :
    order.arrange (order.arrange bytes) = bytes := by
  cases order <;> simp [arrange]

end ByteOrder

namespace Width

theorem ofBytes?_eq_some_iff {n : Int} {width : Width} : ofBytes? n = some width ↔ n = width.bytes := by
  constructor
  · intro h
    rw [ofBytes?] at h
    split_ifs at h <;> cases h <;> assumption
  · rintro rfl
    cases width <;> rfl

theorem eq_ofNat_bytes {b : UInt8} {width : Width} (h : ofBytes? b.toNat = some width) :
    b = UInt8.ofNat width.bytes := by
  have hbytes : b.toNat = width.bytes := Int.ofNat_inj.mp (ofBytes?_eq_some_iff.mp h)
  rw [← hbytes, UInt8.ofNat_toNat]

end Width

namespace Unsigned

@[simp] theorem length_digits (size n : Nat) : (digits size n).length = size := by
  induction size generalizing n with
  | zero => rfl
  | succ size ih => rw [digits, List.length_cons, ih]

theorem value_lt (bytes : Bytes) : value bytes < 256 ^ bytes.length := by
  induction bytes with
  | nil => simp [value]
  | cons b bytes ih =>
    have hb := b.toNat_lt
    rw [value, List.length_cons, pow_succ]
    omega

theorem value_digits {size n : Nat} (hn : n < 256 ^ size) : value (digits size n) = n := by
  induction size generalizing n with
  | zero =>
    rw [pow_zero] at hn
    rw [digits, value]
    omega
  | succ size ih =>
    have hdiv : n / 256 < 256 ^ size := by
      apply (Nat.div_lt_iff_lt_mul (by decide)).mpr
      rwa [pow_succ] at hn
    have hbyte : (UInt8.ofNat (n % 256)).toNat = n % 256 := by simp
    rw [digits, value, ih hdiv, hbyte]
    exact Nat.mod_add_div n 256

theorem digits_value (bytes : Bytes) : digits bytes.length (value bytes) = bytes := by
  induction bytes with
  | nil => rfl
  | cons b bytes ih =>
    have hb := b.toNat_lt
    have hlow : (b.toNat + 256 * value bytes) % 256 = b.toNat := by omega
    have hhigh : (b.toNat + 256 * value bytes) / 256 = value bytes := by omega
    rw [List.length_cons, value, digits, hlow, hhigh, ih, UInt8.ofNat_toNat]

@[simp] theorem length_encode (order : ByteOrder) (size n : Nat) :
    (encode order size n).length = size := by
  simp [encode]

theorem decode_lt (order : ByteOrder) (bytes : Bytes) : decode order bytes < 256 ^ bytes.length := by
  have h := value_lt (order.arrange bytes)
  rwa [ByteOrder.length_arrange] at h

theorem decode_encode {size n : Nat} (order : ByteOrder) (hn : n < 256 ^ size) :
    decode order (encode order size n) = n := by
  rw [decode, encode, ByteOrder.arrange_arrange, value_digits hn]

theorem encode_decode (order : ByteOrder) (bytes : Bytes) :
    encode order bytes.length (decode order bytes) = bytes := by
  have h := digits_value (order.arrange bytes)
  rw [ByteOrder.length_arrange] at h
  rw [encode, decode, h, ByteOrder.arrange_arrange]

theorem encode?_natCast {order : ByteOrder} {size n : Nat} (hn : n < 256 ^ size) :
    encode? order size n = .ok (encode order size n) := by
  have hpow : 2 ^ (8 * size) = 256 ^ size := pow_mul 2 8 size
  have hle : (n : Int) ≤ (Bits.mask (8 * size) : Nat) := by
    rw [Bits.mask_eq, hpow]
    omega
  rw [encode?, if_pos ⟨Int.natCast_nonneg n, hle⟩, Int.toNat_natCast]

theorem split?_eq_some_iff {size : Nat} {bytes front back : Bytes} :
    split? size bytes = some (front, back) ↔ front.length = size ∧ bytes = front ++ back := by
  induction size generalizing bytes front with
  | zero =>
    rw [split?, List.length_eq_zero_iff, Option.some_inj, Prod.mk.injEq]
    constructor
    · rintro ⟨rfl, rfl⟩
      exact ⟨rfl, rfl⟩
    · rintro ⟨rfl, rfl⟩
      exact ⟨rfl, rfl⟩
  | succ size ih =>
    cases bytes with
    | nil => cases front <;> simp [split?]
    | cons b bytes =>
      cases front with
      | nil =>
        rw [split?]
        split <;> simp
      | cons f front =>
        rw [List.length_cons, List.cons_append, List.cons.injEq, Nat.add_right_cancel_iff]
        constructor
        · intro h
          rw [split?] at h
          split at h
          · rename_i front' back' hsplit
            simp only [Option.some.injEq, Prod.mk.injEq, List.cons.injEq] at h
            obtain ⟨⟨rfl, rfl⟩, rfl⟩ := h
            have hrest := ih.mp hsplit
            exact ⟨hrest.1, rfl, hrest.2⟩
          · cases h
        · rintro ⟨hlen, rfl, hbytes⟩
          rw [split?, ih.mpr ⟨hlen, hbytes⟩]

/-- Splitting needs nothing but enough bytes. -/
theorem split?_eq (size : Nat) (bytes : Bytes) :
    split? size bytes =
      if size ≤ bytes.length then some (bytes.take size, bytes.drop size) else none := by
  split_ifs with hsize
  · exact split?_eq_some_iff.mpr ⟨List.length_take_of_le hsize, (List.take_append_drop ..).symm⟩
  · rw [Option.eq_none_iff_forall_ne_some]
    rintro ⟨front, back⟩ h
    obtain ⟨rfl, rfl⟩ := split?_eq_some_iff.mp h
    exact hsize (by simp)

theorem read?_eq (order : ByteOrder) (size : Nat) (bytes : Bytes) :
    read? order size bytes =
      if size ≤ bytes.length then some (decode order (bytes.take size), bytes.drop size)
      else none := by
  rw [read?, split?_eq]
  split_ifs <;> rfl

theorem read?_encode_append {size n : Nat} (order : ByteOrder) (hn : n < 256 ^ size) (back : Bytes) :
    read? order size (encode order size n ++ back) = some (n, back) := by
  have hsplit : split? size (encode order size n ++ back) = some (encode order size n, back) :=
    split?_eq_some_iff.mpr ⟨length_encode order size n, rfl⟩
  rw [read?, hsplit]
  simp only [decode_encode order hn]

/-- Reading succeeds exactly on the bytes of a number that fits, followed by anything. -/
theorem read?_eq_some_iff {order : ByteOrder} {size n : Nat} {bytes back : Bytes} :
    read? order size bytes = some (n, back) ↔
      n < 256 ^ size ∧ bytes = encode order size n ++ back := by
  constructor
  · intro h
    rw [read?] at h
    split at h
    · rename_i front back' hsplit
      obtain ⟨hlen, rfl⟩ := split?_eq_some_iff.mp hsplit
      simp only [Option.some.injEq, Prod.mk.injEq] at h
      obtain ⟨rfl, rfl⟩ := h
      rw [← hlen, encode_decode]
      exact ⟨decode_lt order front, rfl⟩
    · cases h
  · rintro ⟨hn, rfl⟩
    exact read?_encode_append order hn back

end Unsigned
end LuaBytecode
