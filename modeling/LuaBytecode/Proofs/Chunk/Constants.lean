import LuaBytecode.Proofs.Chunk.Format
import LuaBytecode.Proofs.Session.Chunks

/-! The pool of constants: a pool is read exactly as the constants that were written there, whatever
follows them, and where it cannot be read, the bytes after the last constant decide the fault. -/
namespace LuaBytecode

namespace ConstantType

theorem ofTag?_eq_some_iff {tag : Int} {type : ConstantType} :
    ofTag? tag = some type ↔ tag = type.tag := by
  constructor
  · intro h
    have htag := List.find?_some h
    exact (beq_iff_eq.mp htag).symm
  · rintro rfl
    cases type <;> rfl

/-- The bytes that tell the type of a constant. -/
def tags : List UInt8 := [0, 1, 3, 4]

theorem ofTag?_eq_none_iff {tag : UInt8} : ofTag? tag.toNat = none ↔ tag ∉ tags := by
  have hknown : (∃ type : ConstantType, (tag.toNat : Int) = type.tag) ↔ tag ∈ tags := by
    constructor
    · rintro ⟨type, htype⟩
      have htag : tag = UInt8.ofNat type.tag := by
        rw [← Int.ofNat_inj.mp htype, UInt8.ofNat_toNat]
      rw [htag]
      cases type <;> decide
    · intro h
      simp only [tags, List.mem_cons, List.not_mem_nil, or_false] at h
      rcases h with rfl | rfl | rfl | rfl
      · exact ⟨.nil, rfl⟩
      · exact ⟨.boolean, rfl⟩
      · exact ⟨.number, rfl⟩
      · exact ⟨.string, rfl⟩
  rw [← hknown, Option.eq_none_iff_forall_ne_some, not_exists]
  simp only [ne_eq, ofTag?_eq_some_iff]

end ConstantType

namespace Constant
open Outcome

/-- The bytes after the tag of a constant: its payload, and before that of a string the length. -/
def payloadBytes (p : Profile) (c : Constant) : Bytes :=
  match c.type with
  | .string => Unsigned.encode p.order p.sizeWidth.bytes c.payload.length ++ c.payload
  | _ => c.payload

/-- The bytes of a constant. -/
def image (p : Profile) (c : Constant) : Bytes := UInt8.ofNat c.type.tag :: c.payloadBytes p

/-- The payload has the length that the type asks for; that of a string is any that can be written. -/
def Fits (p : Profile) (c : Constant) : Prop :=
  match c.type with
  | .nil => c.payload = []
  | .boolean => c.payload.length = 1
  | .number => c.payload.length = p.numberSize.toNat
  | .string => c.payload.length < 256 ^ p.sizeWidth.bytes

instance (p : Profile) : (c : Constant) → Decidable (c.Fits p)
  | ⟨.nil, payload⟩ => inferInstanceAs (Decidable (payload = []))
  | ⟨.boolean, payload⟩ => inferInstanceAs (Decidable (payload.length = 1))
  | ⟨.number, payload⟩ => inferInstanceAs (Decidable (payload.length = p.numberSize.toNat))
  | ⟨.string, payload⟩ => inferInstanceAs (Decidable (payload.length < 256 ^ p.sizeWidth.bytes))

theorem readPayload?_eq_some_iff {p : Profile} {type : ConstantType} {bytes payload back : Bytes} :
    readPayload? p type bytes = some (payload, back) ↔
      Fits p ⟨type, payload⟩ ∧ bytes = payloadBytes p ⟨type, payload⟩ ++ back := by
  cases type with
  | nil =>
    rw [readPayload?, Option.some_inj, Prod.mk.injEq]
    constructor
    · rintro ⟨rfl, rfl⟩
      exact ⟨rfl, rfl⟩
    · rintro ⟨hpayload, rfl⟩
      obtain rfl : payload = [] := hpayload
      exact ⟨rfl, rfl⟩
  | boolean => exact Unsigned.split?_eq_some_iff
  | number => exact Unsigned.split?_eq_some_iff
  | string =>
    rw [readPayload?]
    constructor
    · intro h
      split at h
      · rename_i length bytes' hlength
        obtain ⟨hlt, rfl⟩ := Unsigned.read?_eq_some_iff.mp hlength
        obtain ⟨rfl, rfl⟩ := Unsigned.split?_eq_some_iff.mp h
        exact ⟨hlt, (List.append_assoc ..).symm⟩
      · cases h
    · rintro ⟨hlt, rfl⟩
      simp only [payloadBytes, List.append_assoc]
      rw [Unsigned.read?_encode_append p.order hlt]
      exact Unsigned.split?_eq_some_iff.mpr ⟨rfl, rfl⟩

/-- A constant is read exactly from its bytes, whatever follows them. -/
theorem read_eq_ok_iff {p : Profile} {bytes back : Bytes} {c : Constant} :
    read p bytes = .ok (c, back) ↔ c.Fits p ∧ bytes = c.image p ++ back := by
  constructor
  · intro h
    cases bytes with
    | nil => cases h
    | cons tag bytes =>
      rw [read] at h
      split at h
      · cases h
      rename_i type htype
      split at h
      · rename_i payload bytes' hpayload
        cases h
        obtain ⟨hfits, rfl⟩ := readPayload?_eq_some_iff.mp hpayload
        have htag : tag.toNat = type.tag :=
          Int.ofNat_inj.mp (ConstantType.ofTag?_eq_some_iff.mp htype)
        rw [image, ← htag, UInt8.ofNat_toNat]
        exact ⟨hfits, rfl⟩
      · cases h
  · rintro ⟨hfits, rfl⟩
    have htype : ConstantType.ofTag? (UInt8.ofNat c.type.tag).toNat = some c.type := by
      cases c.type <;> rfl
    have hpayload : readPayload? p c.type (c.payloadBytes p ++ back) = some (c.payload, back) :=
      readPayload?_eq_some_iff.mpr ⟨hfits, rfl⟩
    rw [image, List.cons_append, read, htype]
    dsimp only
    rw [hpayload]

/-- A tag that no constant has is found before anything after it is looked at. -/
theorem read_of_unknown_tag {tag : UInt8} (h : tag ∉ ConstantType.tags) (p : Profile)
    (rest : Bytes) : read p (tag :: rest) = .error (.unknownConstantTag tag.toNat) := by
  rw [read, ConstantType.ofTag?_eq_none_iff.mpr h]

private theorem read_eq_error {p : Profile} {bytes : Bytes} {fault : Fault}
    (h : read p bytes = .error fault) :
    (∃ tag rest, bytes = tag :: rest ∧ tag ∉ ConstantType.tags ∧
      fault = .unknownConstantTag tag.toNat) ∨ fault = .poolTruncated := by
  cases bytes with
  | nil =>
    cases h
    exact .inr rfl
  | cons tag bytes =>
    rw [read] at h
    split at h
    · rename_i htype
      cases h
      exact .inl ⟨tag, bytes, rfl, ConstantType.ofTag?_eq_none_iff.mp htype, rfl⟩
    · split at h
      · cases h
      · cases h
        exact .inr rfl

/-- Only a number has no value of its own; the payload of a truth value is never empty. -/
theorem value_of_fits {p : Profile} {c : Constant} (h : c.Fits p) :
    (c.type = .number ∧ c.value = .error .numberConstant) ∨
      (c.type ≠ .number ∧ ∃ value, c.value = .ok value) := by
  obtain ⟨type, payload⟩ := c
  cases type with
  | nil => exact .inr ⟨by simp, _, rfl⟩
  | boolean =>
    cases payload with
    | nil => cases h
    | cons b payload => exact .inr ⟨by simp, _, rfl⟩
  | number => exact .inl ⟨rfl, rfl⟩
  | string => cases payload <;> exact .inr ⟨by simp, _, rfl⟩

/-- The constants that are read one after the other, as many as are asked for, and the fault that
ends the reading before, if one does. -/
def walk (p : Profile) : Nat → Bytes → List Constant × Option Fault
  | 0, _ => ([], none)
  | count + 1, bytes =>
    match read p bytes with
    | .error fault => ([], some fault)
    | .ok (constant, bytes) =>
      let (constants, fault) := walk p count bytes
      (constant :: constants, fault)

/-- What a walk comes to: its constants, unless a fault ended it. -/
def walkOutcome : List Constant × Option Fault → Except Fault (List Constant)
  | (constants, none) => .ok constants
  | (_, some fault) => .error fault

private theorem readMany_eq_walk (p : Profile) (count : Nat) (bytes : Bytes) :
    readMany p count bytes = walkOutcome (walk p count bytes) := by
  induction count generalizing bytes with
  | zero => rfl
  | succ count ih =>
    rw [readMany, walk]
    cases read p bytes with
    | error fault => rfl
    | ok pair =>
      obtain ⟨constant, bytes⟩ := pair
      rw [ok_bind]
      dsimp only
      rw [ih]
      rcases walk p count bytes with ⟨constants, _ | fault⟩ <;> rfl

/-- A walk takes whole constants from the front. It ends when it has as many as were asked for, or
where no further constant can be read. -/
theorem walk_spec (p : Profile) (count : Nat) (bytes : Bytes) :
    (∀ c ∈ (walk p count bytes).1, c.Fits p) ∧
    ∃ rest, bytes = (walk p count bytes).1.flatMap (image p) ++ rest ∧
      match (walk p count bytes).2 with
      | none => (walk p count bytes).1.length = count
      | some fault => (walk p count bytes).1.length < count ∧ read p rest = .error fault := by
  induction count generalizing bytes with
  | zero => exact ⟨by simp [walk], bytes, rfl, rfl⟩
  | succ count ih =>
    cases hread : read p bytes with
    | error fault =>
      have hwalk : walk p (count + 1) bytes = ([], some fault) := by rw [walk, hread]
      rw [hwalk]
      exact ⟨by simp, bytes, rfl, Nat.succ_pos count, hread⟩
    | ok pair =>
      obtain ⟨constant, back⟩ := pair
      obtain ⟨hfits, rfl⟩ := read_eq_ok_iff.mp hread
      have hwalk : walk p (count + 1) (constant.image p ++ back) =
          (constant :: (walk p count back).1, (walk p count back).2) := by rw [walk, hread]
      obtain ⟨hall, rest, hback, hend⟩ := ih back
      rw [hwalk]
      refine ⟨List.forall_mem_cons.mpr ⟨hfits, hall⟩, rest, ?_, ?_⟩
      · rw [List.flatMap_cons, List.append_assoc, ← hback]
      · dsimp only
        split at hend
        · rw [List.length_cons, hend]
        · exact ⟨Nat.succ_lt_succ hend.1, hend.2⟩

/-- Constants that stand at the front are the first that a walk takes. -/
theorem walk_append {p : Profile} {constants : List Constant} (h : ∀ c ∈ constants, c.Fits p)
    (count : Nat) (rest : Bytes) :
    walk p (constants.length + count) (constants.flatMap (image p) ++ rest) =
      (constants ++ (walk p count rest).1, (walk p count rest).2) := by
  induction constants with
  | nil => rw [List.length_nil, Nat.zero_add]; rfl
  | cons constant constants ih =>
    rw [List.forall_mem_cons] at h
    have hread := read_eq_ok_iff.mpr ⟨h.1, List.append_assoc (constant.image p)
      (constants.flatMap (image p)) rest⟩
    rw [List.length_cons, Nat.succ_add, List.flatMap_cons, walk, hread]
    dsimp only
    rw [ih h.2]
    rfl

private theorem walkOutcome_eq_ok_iff {w : List Constant × Option Fault} {constants : List Constant} :
    walkOutcome w = .ok constants ↔ w = (constants, none) := by
  rcases w with ⟨constants', _ | fault⟩ <;> simp [walkOutcome]

theorem walkOutcome_eq_error_iff {w : List Constant × Option Fault} {fault : Fault} :
    walkOutcome w = .error fault ↔ w.2 = some fault := by
  rcases w with ⟨constants, _ | fault'⟩ <;> simp [walkOutcome]

private theorem length_le_length_flatMap_image (p : Profile) (constants : List Constant) :
    constants.length ≤ (constants.flatMap (image p)).length := by
  induction constants with
  | nil => exact Nat.le_refl 0
  | cons constant constants ih =>
    rw [List.flatMap_cons, List.length_append, image, List.length_cons, List.length_cons]
    omega

/-- The walk over a pool: the count is read, then as many constants as it says. -/
def walkPool (p : Profile) (bytes : Bytes) : List Constant × Option Fault :=
  match Unsigned.read? p.order p.intWidth.bytes bytes with
  | some (count, bytes) => walk p count bytes
  | none => ([], some .poolTruncated)

theorem readPool_eq_walkPool (p : Profile) (bytes : Bytes) :
    readPool p bytes = walkOutcome (walkPool p bytes) := by
  rw [readPool, walkPool]
  cases Unsigned.read? p.order p.intWidth.bytes bytes with
  | none => rfl
  | some pair => exact readMany_eq_walk p pair.1 pair.2

theorem walkPool_append {p : Profile} {count : Nat} (hcount : count < 256 ^ p.intWidth.bytes)
    (rest : Bytes) :
    walkPool p (Unsigned.encode p.order p.intWidth.bytes count ++ rest) = walk p count rest := by
  rw [walkPool, Unsigned.read?_encode_append p.order hcount]

/-- A walk over a pool fails for want of a count, or it is a walk over as many constants as the count
says. -/
theorem walkPool_cases (p : Profile) (bytes : Bytes) :
    walkPool p bytes = ([], some .poolTruncated) ∨
      ∃ count rest, count < 256 ^ p.intWidth.bytes ∧
        bytes = Unsigned.encode p.order p.intWidth.bytes count ++ rest ∧
        walkPool p bytes = walk p count rest := by
  cases hread : Unsigned.read? p.order p.intWidth.bytes bytes with
  | none =>
    left
    rw [walkPool, hread]
  | some pair =>
    obtain ⟨count, rest⟩ := pair
    obtain ⟨hcount, rfl⟩ := Unsigned.read?_eq_some_iff.mp hread
    exact .inr ⟨count, rest, hcount, rfl, walkPool_append hcount rest⟩

/-- Every constant takes a byte at least, so that the count alone never makes a walk long. -/
theorem length_walkPool_le (p : Profile) (bytes : Bytes) :
    (walkPool p bytes).1.length ≤ bytes.length := by
  rcases walkPool_cases p bytes with hwalk | ⟨count, rest, _, rfl, hwalk⟩
  · rw [hwalk]
    exact Nat.zero_le _
  · obtain ⟨_, rest', hrest, _⟩ := walk_spec p count rest
    have hle := length_le_length_flatMap_image p (walk p count rest).1
    have hlen := congrArg List.length hrest
    rw [List.length_append] at hlen
    rw [hwalk, List.length_append]
    omega

/-- A pool is read exactly from a count and the bytes of as many constants, whatever follows them. -/
theorem readPool_eq_ok_iff {p : Profile} {bytes : Bytes} {constants : List Constant} :
    readPool p bytes = .ok constants ↔
      constants.length < 256 ^ p.intWidth.bytes ∧ (∀ c ∈ constants, c.Fits p) ∧
        ∃ rest, bytes = Unsigned.encode p.order p.intWidth.bytes constants.length ++
          constants.flatMap (image p) ++ rest := by
  rw [readPool_eq_walkPool, walkOutcome_eq_ok_iff]
  constructor
  · intro h
    rcases walkPool_cases p bytes with hwalk | ⟨count, rest, hcount, rfl, hwalk⟩
    · rw [hwalk] at h
      cases h
    · obtain ⟨hfits, rest', hrest, hend⟩ := walk_spec p count rest
      rw [← hwalk, h] at hfits hrest hend
      obtain rfl : constants.length = count := hend
      refine ⟨hcount, hfits, rest', ?_⟩
      rw [hrest, List.append_assoc]
  · rintro ⟨hcount, hfits, rest, rfl⟩
    have hwalk := walk_append hfits 0 rest
    rw [List.append_assoc, walkPool_append hcount]
    rwa [Nat.add_zero, walk, List.append_nil] at hwalk

/-- A pool holds a tag that no constant has, after fewer constants than it counts. -/
def HasUnknownTag (p : Profile) (bytes : Bytes) (tag : UInt8) : Prop :=
  tag ∉ ConstantType.tags ∧ ∃ (count : Nat) (constants : List Constant) (rest : Bytes),
    count < 256 ^ p.intWidth.bytes ∧ constants.length < count ∧ (∀ c ∈ constants, c.Fits p) ∧
    bytes = Unsigned.encode p.order p.intWidth.bytes count ++
      constants.flatMap (image p) ++ tag :: rest

private theorem readPool_of_hasUnknownTag {p : Profile} {bytes : Bytes} {tag : UInt8}
    (h : HasUnknownTag p bytes tag) : readPool p bytes = .error (.unknownConstantTag tag.toNat) := by
  obtain ⟨htag, count, constants, rest, hcount, hlt, hfits, rfl⟩ := h
  obtain ⟨n, rfl⟩ := Nat.exists_eq_add_of_lt hlt
  have hend : walk p (n + 1) (tag :: rest) = ([], some (.unknownConstantTag tag.toNat)) := by
    rw [walk, read_of_unknown_tag htag]
  rw [readPool_eq_walkPool, walkOutcome_eq_error_iff, List.append_assoc, walkPool_append hcount,
    Nat.add_assoc, walk_append hfits, hend]

/-- Apart from an unknown tag, a pool can only be too short. -/
theorem readPool_eq_error {p : Profile} {bytes : Bytes} {fault : Fault}
    (h : readPool p bytes = .error fault) :
    (∃ tag, HasUnknownTag p bytes tag ∧ fault = .unknownConstantTag tag.toNat) ∨
      fault = .poolTruncated := by
  rw [readPool_eq_walkPool, walkOutcome_eq_error_iff] at h
  rcases walkPool_cases p bytes with hwalk | ⟨count, rest, hcount, rfl, hwalk⟩
  · rw [hwalk] at h
    exact .inr (Option.some.inj h).symm
  · obtain ⟨hfits, rest', hrest, hend⟩ := walk_spec p count rest
    rw [← hwalk] at hfits hrest hend
    rw [h] at hend
    obtain ⟨hlt, hread⟩ := hend
    rcases read_eq_error hread with ⟨tag, rest₂, rfl, htag, hfault⟩ | hfault
    · refine .inl ⟨tag, ⟨htag, count, _, rest₂, hcount, hlt, hfits, ?_⟩, hfault⟩
      rw [List.append_assoc, ← hrest]
    · exact .inr hfault

end Constant

namespace Chunk
open Session (openChunk)

/-- The constants of an opened chunk are exactly those that are written at the front of the bytes after
its code, whatever follows them. Where the pool cannot be read, the fault is about a type of constant
if fewer constants than it counts are followed by an unknown tag, and about the format otherwise. No
more constants are read than there are bytes, whatever the count says; and of the constants of a pool
only numbers have no value. -/
theorem constants_of_openChunk {p : Profile} {data tail : Bytes} {c : Chunk} {t : Settings}
    {s s₁ : Session} (hopen : Session.run (openChunk data (some p)) t s = (.ok c, s₁))
    (htail : tail = data.drop (p.codeOffset + 4 * c.code.words.length)) :
    (∀ constants, c.constants = .ok constants ↔
      constants.length < 256 ^ p.intWidth.bytes ∧ (∀ k ∈ constants, k.Fits p) ∧
        ∃ rest, tail = Unsigned.encode p.order p.intWidth.bytes constants.length ++
          constants.flatMap (Constant.image p) ++ rest) ∧
    ((∃ fault, c.constants = .error fault ∧ fault.category = .constantType) ↔
      ∃ tag, Constant.HasUnknownTag p tail tag) ∧
    (∀ fault, c.constants = .error fault →
      fault.category = .constantType ∨ fault.category = .formatMismatch) ∧
    (c.constants = Constant.walkOutcome (Constant.walkPool p tail) ∧
      (Constant.walkPool p tail).1.length ≤ tail.length) ∧
    ∀ constants, c.constants = .ok constants → ∀ k ∈ constants,
      ((∃ fault, k.value = .error fault) ↔ k.type = .number) ∧
      ∀ fault, k.value = .error fault → fault.category = .constantType := by
  obtain ⟨hc, rfl⟩ := parse_eq_ok_iff.mp (Session.parse_of_openChunk hopen)
  have hrest : tail = c.rest := htail.trans (drop_image hc)
  have hpool : c.constants = Constant.readPool p tail := by
    rw [constants, hc.profile_eq, hrest]
  rw [hpool]
  refine ⟨fun _ => Constant.readPool_eq_ok_iff, ⟨?_, ?_⟩, ?_,
    ⟨Constant.readPool_eq_walkPool p tail, Constant.length_walkPool_le p tail⟩, ?_⟩
  · rintro ⟨fault, hfault, hcategory⟩
    rcases Constant.readPool_eq_error hfault with ⟨tag, htag, _⟩ | rfl
    · exact ⟨tag, htag⟩
    · cases hcategory
  · rintro ⟨tag, htag⟩
    exact ⟨_, Constant.readPool_of_hasUnknownTag htag, rfl⟩
  · intro fault hfault
    rcases Constant.readPool_eq_error hfault with ⟨tag, _, rfl⟩ | rfl
    · exact .inl rfl
    · exact .inr rfl
  · intro constants hread k hk
    have hfits := (Constant.readPool_eq_ok_iff.mp hread).2.1 k hk
    rcases Constant.value_of_fits hfits with ⟨htype, hvalue⟩ | ⟨htype, value, hvalue⟩
    · refine ⟨⟨fun _ => htype, fun _ => ⟨_, hvalue⟩⟩, ?_⟩
      intro fault hfault
      rw [hvalue] at hfault
      cases hfault
      rfl
    · have hok (fault : Fault) : k.value ≠ .error fault := by
        rw [hvalue]
        exact nofun
      refine ⟨⟨?_, fun h => absurd h htype⟩, fun fault hfault => absurd hfault (hok fault)⟩
      rintro ⟨fault, hfault⟩
      exact absurd hfault (hok fault)

/-- On a machine with integers of one byte, three constants of a pool are read with a byte left over,
and a pool that counts 255 constants is refused at the second. -/
theorem constants_of_openChunk_pools :
    (∃ c s₁, Session.run (openChunk (Profile.header ⟨.big, .one, .two, 4, 0⟩ ++
        [0, 0, 0, 1, 2, 0, 3, 0, 1, 1, 4, 0, 2, 0x61, 0, 9]) (some ⟨.big, .one, .two, 4, 0⟩))
        ⟨false, false, none⟩ {} = (.ok c, s₁) ∧
      c.constants = .ok [⟨.nil, []⟩, ⟨.boolean, [1]⟩, ⟨.string, [0x61, 0]⟩]) ∧
    ∃ c s₁, Session.run (openChunk (Profile.header ⟨.big, .one, .two, 4, 0⟩ ++
        [0, 0, 0, 1, 2, 0, 255, 0, 2]) (some ⟨.big, .one, .two, 4, 0⟩))
        ⟨false, false, none⟩ {} = (.ok c, s₁) ∧
      ∃ fault, c.constants = .error fault ∧ fault.category = .constantType := by
  constructor
  · have hopen : Session.run (openChunk (Profile.header ⟨.big, .one, .two, 4, 0⟩ ++
        [0, 0, 0, 1, 2, 0, 3, 0, 1, 1, 4, 0, 2, 0x61, 0, 9]) (some ⟨.big, .one, .two, 4, 0⟩))
        ⟨false, false, none⟩ {} = (.ok _, _) := rfl
    refine ⟨_, _, hopen, ?_⟩
    rw [(constants_of_openChunk hopen rfl).1]
    exact ⟨by decide, by decide, [9], rfl⟩
  · have hopen : Session.run (openChunk (Profile.header ⟨.big, .one, .two, 4, 0⟩ ++
        [0, 0, 0, 1, 2, 0, 255, 0, 2]) (some ⟨.big, .one, .two, 4, 0⟩))
        ⟨false, false, none⟩ {} = (.ok _, _) := rfl
    refine ⟨_, _, hopen, ?_⟩
    rw [(constants_of_openChunk hopen rfl).2.1]
    exact ⟨2, by decide, 255, [⟨.nil, []⟩], [], by decide, by decide, by decide, rfl⟩

end Chunk
end LuaBytecode
