import LuaBytecode.Proofs.Bytes.Cursor
import LuaBytecode.Proofs.Bytes.InPlace
import LuaBytecode.Proofs.Chunk.Opening
import LuaBytecode.Proofs.Session.Words

/-! Chunks through readers and writers: numbers, instructions and constants that are read in place by a
reader are those that are read from the front of the bytes, and a chunk that is written in place by a
writer is written as its bytes in a row. -/
namespace LuaBytecode

/-- The fault of a part that ends before the bytes that it needs; others stay what they are. -/
def Fault.shortAs (short : Fault) (fault : Fault) : Fault :=
  if fault = .bufferTooShort then short else fault

namespace Cursor
open InPlace
variable {α β : Type} {order : ByteOrder} {short : Fault}

/-- A part that was read from the front of the bytes, or a fault for want of bytes. -/
def orShort (short : Fault) : Option α → Except Fault α
  | some a => .ok a
  | none => .error short

/-- A read in place follows the reading of a part from the front of the bytes: it gives the same value and
leaves the reader at the bytes behind the part, or it fails in the same way. -/
structure Follows (order : ByteOrder) (short : Fault) (x : InPlace Reader α)
    (part : Bytes → Except Fault (α × Bytes)) : Prop where
  of_ok : ∀ r : Reader, r.Inside → r.order = order → ∀ a back, part r.rest = .ok (a, back) →
    ∃ r', run x r = (.ok a, r') ∧ r'.Inside ∧ r'.order = order ∧ r'.rest = back
  of_error : ∀ r : Reader, r.Inside → r.order = order → ∀ fault, part r.rest = .error fault →
    (run x r).1.mapError (Fault.shortAs short) = .error fault

theorem Follows.congr {x : InPlace Reader α} {part part' : Bytes → Except Fault (α × Bytes)}
    (h : Follows order short x part) (heq : ∀ bytes, part bytes = part' bytes) :
    Follows order short x part' := by
  rwa [← funext heq]

private theorem follows_pure (a : α) : Follows order short (pure a) fun bytes => .ok (a, bytes) where
  of_ok r hr horder a' back h := by
    cases h
    exact ⟨r, rfl, hr, horder, rfl⟩
  of_error r _ _ fault h := by cases h

private theorem follows_throw {fault : Fault} (h : fault ≠ .bufferTooShort) :
    Follows order short (throw fault : InPlace Reader α) fun _ => .error fault where
  of_ok r _ _ a back h := by cases h
  of_error r _ _ fault' h' := by
    cases h'
    show Except.error (Fault.shortAs short fault) = _
    rw [Fault.shortAs, if_neg h]

/-- Parts that follow one another are read one after the other. -/
theorem Follows.bind {x : InPlace Reader α} {f : α → InPlace Reader β}
    {part : Bytes → Except Fault (α × Bytes)} {next : α → Bytes → Except Fault (β × Bytes)}
    (hx : Follows order short x part) (hf : ∀ a, Follows order short (f a) (next a)) :
    Follows order short (x >>= f) fun bytes => part bytes >>= fun (a, back) => next a back where
  of_ok r hr horder b back h := by
    obtain ⟨⟨a, middle⟩, hpart, hnext⟩ := Outcome.bind_eq_ok_iff.mp h
    obtain ⟨r', hrun, hr', horder', rfl⟩ := hx.of_ok r hr horder a middle hpart
    rw [run_bind_ok hrun]
    exact (hf a).of_ok r' hr' horder' b back hnext
  of_error r hr horder fault h := by
    rcases Outcome.bind_eq_error_iff.mp h with hpart | ⟨⟨a, middle⟩, hpart, hnext⟩
    · have hfault := hx.of_error r hr horder fault hpart
      cases hrun : (run x r).1 with
      | ok a =>
        rw [hrun] at hfault
        cases hfault
      | error fault' =>
        rw [hrun] at hfault
        rw [run_bind_error hrun]
        exact congrArg Except.error (Except.error.inj hfault)
    · obtain ⟨r', hrun, hr', horder', rfl⟩ := hx.of_ok r hr horder a middle hpart
      rw [run_bind_ok hrun]
      exact (hf a).of_error r' hr' horder' fault hnext

/-- A read that takes `count` bytes, if there are so many. -/
private theorem follows_take {x : InPlace Reader α} {count : Nat} {value : Bytes → α}
    (hx : ∀ r : Reader, r.Inside → r.order = order → run x r =
      if count ≤ r.rest.length then (.ok (value (r.rest.take count)), r.past count)
      else (.error .bufferTooShort, r)) :
    Follows order short x fun bytes => orShort short
      (if count ≤ bytes.length then some (value (bytes.take count), bytes.drop count) else none) where
  of_ok r hr horder a back h := by
    rw [hx r hr horder]
    split_ifs at h ⊢ with hcount
    · cases h
      have hroom := (Reader.le_length_rest_iff hr).mp (Int.ofNat_le.mpr hcount)
      refine ⟨r.past count, rfl, ?_, horder, ?_⟩
      · show r.position + count ≤ r.buffer.length
        exact_mod_cast hroom
      · rw [Reader.rest, Reader.rest, List.drop_drop]
        rfl
    · cases h
  of_error r hr horder fault h := by
    rw [hx r hr horder]
    split_ifs at h ⊢ with hcount
    · cases h
    · cases h
      rfl

private theorem follows_number (size : Nat) :
    Follows order short (number size) fun bytes => orShort short (Unsigned.read? order size bytes) := by
  simp only [Unsigned.read?_eq]
  refine follows_take fun r hr horder => ?_
  rw [run_number hr, horder, Unsigned.decode_eq_fold]

private theorem follows_raw (count : Nat) :
    Follows order short (raw count) fun bytes => orShort short (Unsigned.split? count bytes) := by
  simp only [Unsigned.split?_eq]
  refine @follows_take Bytes order short (raw count) count id fun r hr _ => ?_
  have hcount : (0 ≤ (count : Int) ∧ (count : Int) ≤ r.rest.length) ↔ count ≤ r.rest.length := by omega
  rw [run_raw hr, if_congr hcount rfl rfl, Int.toNat_natCast]
  rfl

/-- Reads a number of parts in turn. -/
def many (x : InPlace Reader α) : Nat → InPlace Reader (List α)
  | 0 => return []
  | count + 1 => do return (← x) :: (← many x count)

private theorem follows_words (count : Nat) :
    Follows order short (many (number Word.size) count) fun bytes =>
      orShort short (Chunk.readWords? order count bytes) := by
  induction count with
  | zero => exact follows_pure []
  | succ count ih =>
    have hcons := (follows_number Word.size).bind fun word => ih.bind fun words =>
      follows_pure (word :: words)
    refine hcons.congr fun bytes => ?_
    rw [Chunk.readWords?]
    cases Unsigned.read? order Word.size bytes with
    | none => rfl
    | some result =>
      obtain ⟨word, back⟩ := result
      show (orShort short (Chunk.readWords? order count back) >>= _) =
        orShort short (Chunk.readWords? order count back >>= _)
      cases Chunk.readWords? order count back <;> rfl

/-! Constants. -/

def payload (p : Profile) : ConstantType → InPlace Reader Bytes
  | .nil => return []
  | .boolean => raw (1 : Nat)
  | .number => raw p.numberSize.toNat
  | .string => do
    let length ← number p.sizeWidth.bytes
    raw length

def constantOf (p : Profile) (tag : Nat) : InPlace Reader Constant :=
  match ConstantType.ofTag? tag with
  | none => throw (.unknownConstantTag tag)
  | some type => do return ⟨type, ← payload p type⟩

def constant (p : Profile) : InPlace Reader Constant := do
  let tag ← number 1
  constantOf p tag

def pool (p : Profile) : InPlace Reader (List Constant) := do
  let count ← number p.intWidth.bytes
  many (constant p) count

private theorem follows_payload (p : Profile) (type : ConstantType) :
    Follows p.order short (payload p type) fun bytes =>
      orShort short (Constant.readPayload? p type bytes) := by
  cases type with
  | nil => exact follows_pure []
  | boolean => exact follows_raw 1
  | number => exact follows_raw p.numberSize.toNat
  | string =>
    refine ((follows_number p.sizeWidth.bytes).bind follows_raw).congr fun bytes => ?_
    rw [Constant.readPayload?]
    cases Unsigned.read? p.order p.sizeWidth.bytes bytes <;> rfl

private theorem follows_constantOf (p : Profile) (tag : Nat) :
    Follows p.order .poolTruncated (constantOf p tag) fun bytes =>
      match ConstantType.ofTag? tag with
      | none => .error (.unknownConstantTag tag)
      | some type =>
        match Constant.readPayload? p type bytes with
        | some (payload, bytes) => .ok (⟨type, payload⟩, bytes)
        | none => .error .poolTruncated := by
  rw [constantOf]
  cases ConstantType.ofTag? tag with
  | none => exact follows_throw nofun
  | some type =>
    have hpayload := (@follows_payload .poolTruncated p type).bind fun payload =>
      follows_pure (Constant.mk type payload)
    refine hpayload.congr fun bytes => ?_
    dsimp only
    cases Constant.readPayload? p type bytes <;> rfl

private theorem read?_one (order : ByteOrder) (byte : UInt8) (bytes : Bytes) :
    Unsigned.read? order 1 (byte :: bytes) = some (byte.toNat, bytes) := by
  rw [Unsigned.read?_eq, if_pos (by simp)]
  cases order <;> simp [Unsigned.decode, ByteOrder.arrange, Unsigned.value]

private theorem follows_constant (p : Profile) :
    Follows p.order .poolTruncated (constant p) (Constant.read p) := by
  refine ((follows_number 1).bind (follows_constantOf p)).congr fun bytes => ?_
  cases bytes with
  | nil => rfl
  | cons tag bytes =>
    rw [read?_one]
    rfl

private theorem follows_constants (p : Profile) (count : Nat) :
    ∃ part, Follows p.order .poolTruncated (many (constant p) count) part ∧
      ∀ bytes, (part bytes).map Prod.fst = Constant.readMany p count bytes := by
  induction count with
  | zero => exact ⟨_, follows_pure [], fun _ => rfl⟩
  | succ count ih =>
    obtain ⟨part, hpart, hmany⟩ := ih
    refine ⟨_, (follows_constant p).bind fun c => hpart.bind fun cs => follows_pure (c :: cs), ?_⟩
    intro bytes
    rw [Constant.readMany]
    cases Constant.read p bytes with
    | error fault => rfl
    | ok result =>
      obtain ⟨c, back⟩ := result
      show ((part back >>= _) : Except Fault _).map Prod.fst = (Constant.readMany p count back >>= _)
      rw [← hmany back]
      cases part back <;> rfl

/-- A read that follows a part has the outcome of the part. -/
theorem Follows.outcome {x : InPlace Reader α} {part : Bytes → Except Fault (α × Bytes)}
    (h : Follows order short x part) (bytes : Bytes) :
    (run x { buffer := bytes, order }).1.mapError (Fault.shortAs short) = (part bytes).map Prod.fst := by
  have hstart : Reader.Inside { buffer := bytes, order } := Nat.zero_le _
  have hrest : Reader.rest { buffer := bytes, order } = bytes := rfl
  cases hpart : part bytes with
  | ok result =>
    obtain ⟨a, back⟩ := result
    obtain ⟨r', hrun, _⟩ := h.of_ok _ hstart rfl a back hpart
    rw [hrun]
    rfl
  | error fault => exact h.of_error _ hstart rfl fault hpart

/-- The constants that a reader reads are those of the pool. -/
theorem run_pool (p : Profile) (bytes : Bytes) :
    (run (pool p) { buffer := bytes, order := p.order }).1.mapError (Fault.shortAs .poolTruncated) =
      Constant.readPool p bytes := by
  choose part hpart hmany using follows_constants p
  have hpool := (@follows_number p.order .poolTruncated p.intWidth.bytes).bind hpart
  rw [pool, hpool.outcome, Constant.readPool]
  cases Unsigned.read? p.order p.intWidth.bytes bytes with
  | none => rfl
  | some result =>
    obtain ⟨count, back⟩ := result
    exact hmany count back

/-! Numbers at an offset and the instructions of a chunk. -/

def numberAt (offset width : Int) : InPlace Reader Nat := do
  seek offset
  let width ← Width.ofBytes width
  number width.bytes

/-- The number that a reader reads at an offset is the one that is there. -/
theorem run_numberAt (p : Profile) (data : Bytes) (offset width : Int) :
    (run (numberAt offset (Profile.readSize width)) { buffer := data, order := p.order }).1.mapError
        (Fault.shortAs (.numberBeyondBuffer (Profile.readSize width) offset data.length)) =
      p.numberAt data offset width := by
  rw [p.numberAt_eq, numberAt]
  generalize Profile.readSize width = size
  by_cases hplace : 0 ≤ offset ∧ offset ≤ data.length
  swap
  · rw [run_bind, run_seek, if_neg hplace, if_pos (by omega)]
    rfl
  rw [run_bind_ok ((run_seek offset).trans (if_pos hplace)), if_neg (by omega), run_bind, run_lift]
  by_cases hwidth : size ∈ [1, 2, 4, 8]
  swap
  · rw [Width.ofBytes_of_not_mem hwidth, if_pos hwidth]
    rfl
  obtain ⟨w, rfl⟩ := Width.exists_bytes_iff.mpr hwidth
  let r : Reader := { buffer := data, order := p.order, position := offset.toNat }
  have hinside : r.Inside := Int.toNat_le.mpr hplace.2
  have hroom : w.bytes ≤ r.rest.length ↔ ¬ (data.length : Int) < offset + w.bytes := by
    rw [← Int.ofNat_le, Reader.le_length_rest_iff hinside]
    dsimp only [r]
    omega
  rw [Width.ofBytes_bytes, if_neg (not_not.mpr hwidth)]
  show Except.mapError _ (run (number w.bytes) r).1 = _
  rw [run_number hinside, if_congr hroom rfl rfl, ite_not, Unsigned.decode_eq_fold]
  split_ifs <;> rfl

/-- Reads a number of the given size at an offset. -/
def numberFrom (offset size : Nat) : InPlace Reader Nat := do
  seek offset
  number size

/-- Reads the instructions behind their count. -/
def code (p : Profile) : InPlace Reader (List Nat) := do
  let count ← numberFrom p.countOffset p.intWidth.bytes
  if count > p.maxCount then
    throw (.countInvalid count)
  let size := (← get).buffer.length
  let codeEnd := p.codeOffset + count * Word.size
  if codeEnd > size then
    throw (.codeTruncated count codeEnd size)
  many (number Word.size) count

private theorem run_numberFrom_of_short {data : Bytes} {offset size : Nat}
    (h : data.length < offset + size) :
    (run (numberFrom offset size) { buffer := data, order }).1 = .error .bufferTooShort := by
  rw [numberFrom, run_bind, run_seek]
  by_cases hseek : 0 ≤ (offset : Int) ∧ (offset : Int) ≤ data.length
  swap
  · rw [if_neg hseek]
  have hinside : Reader.Inside { buffer := data, order, position := offset } :=
    Int.ofNat_le.mp hseek.2
  have hroom := @Reader.le_length_rest_iff _ hinside size
  rw [if_pos hseek]
  refine congrArg Prod.fst ((run_number hinside _).trans (if_neg ?_))
  rw [← Int.ofNat_le, hroom]
  dsimp only
  omega

/-- At the end of some bytes a reader has the number that follows them, and it is left behind it. -/
private theorem run_numberFrom {front back : Bytes} {offset size n : Nat} (hfront : front.length = offset)
    (hn : n < 256 ^ size) :
    ∃ r : Reader, r.buffer = front ++ (Unsigned.encode order size n ++ back) ∧ r.order = order ∧
      r.Inside ∧ r.rest = back ∧
      run (numberFrom offset size) { buffer := front ++ (Unsigned.encode order size n ++ back), order } =
        (.ok n, r) := by
  generalize hdata : front ++ (Unsigned.encode order size n ++ back) = data
  have hseek : 0 ≤ (offset : Int) ∧ (offset : Int) ≤ data.length := by
    rw [← hdata, List.length_append, hfront]
    omega
  let r : Reader := { buffer := data, order, position := offset }
  have hrest : r.rest = Unsigned.encode order size n ++ back := by
    show data.drop offset = _
    rw [← hdata, List.drop_left' hfront]
  have hread : orShort .bufferTooShort (Unsigned.read? order size r.rest) = .ok (n, back) := by
    rw [hrest, Unsigned.read?_encode_append order hn]
    rfl
  have hinside : r.Inside := Int.ofNat_le.mp hseek.2
  have hsize : size ≤ r.rest.length := by
    rw [hrest, List.length_append, Unsigned.length_encode]
    omega
  obtain ⟨r', hrun, hr', horder, hback⟩ := (follows_number size).of_ok r hinside rfl n back hread
  have hbuffer : r'.buffer = data := by
    rw [run_number hinside, if_pos hsize] at hrun
    cases hrun
    rfl
  refine ⟨r', hbuffer, horder, hr', hback, ?_⟩
  rw [numberFrom, run_bind_ok ((run_seek _).trans (if_pos hseek))]
  exact hrun

/-- Once the count is read, the limit and the room for the words are looked at before the words are. -/
private theorem run_code_of_count {p : Profile} {r r' : Reader} {count : Nat}
    (h : run (numberFrom p.countOffset p.intWidth.bytes) r = (.ok count, r')) :
    run (code p) r =
      if count > p.maxCount then (.error (.countInvalid count), r')
      else if p.codeOffset + count * Word.size > r'.buffer.length then
        (.error (.codeTruncated count (p.codeOffset + count * Word.size) r'.buffer.length), r')
      else run (many (number Word.size) count) r' := by
  rw [code, run_bind_ok h]
  by_cases hmax : count > p.maxCount
  · rw [if_pos hmax, if_pos hmax]
    rfl
  · rw [if_neg hmax, if_neg hmax]
    dsimp only
    rw [run_bind_ok (run_get r'), run_ite]
    rfl

/-- The instructions that a reader reads are those of the chunk. It is left at the bytes behind them, and
the bytes before the count are those of the header and the prologue. -/
theorem run_code {p : Profile} {body data : Bytes} (hdata : p.header ++ body = data) :
    (∀ c, Chunk.readBody p data.length body = .ok c →
      ∃ r, run (code p) { buffer := data, order := p.order } = (.ok c.code.words, r) ∧
        r.rest = c.rest ∧ data.take p.countOffset = p.header ++ c.prologue.bytes p) ∧
    ∀ fault, Chunk.readBody p data.length body = .error fault →
      (run (code p) { buffer := data, order := p.order }).1.mapError (Fault.shortAs .countMissing) =
        .error fault := by
  have hlength : data.length = Profile.headerSize + body.length := by
    rw [← hdata, List.length_append, p.length_header]
  by_cases hshort : data.length < p.codeOffset
  · rw [Chunk.readBody_of_short (hlength ▸ hshort), code, run_bind_error (run_numberFrom_of_short hshort)]
    refine ⟨fun c h => (by cases h), ?_⟩
    rintro _ ⟨⟩
    rfl
  obtain ⟨f, count, rest, hf, hcount, rfl⟩ := Chunk.exists_front (hlength ▸ Nat.le_of_not_lt hshort)
  have hfront := Prologue.length_header_bytes p f
  obtain ⟨r, hbuffer, horder, hinside, hrest, hrun⟩ := @run_numberFrom p.order _ rest _ _ _ hfront hcount
  rw [List.append_assoc, hdata] at hbuffer hrun
  have htruncated := Chunk.readWords?_rest_eq_none_iff hdata
  rw [Chunk.readBody_append hf hcount, run_code_of_count hrun, hbuffer]
  by_cases hmax : count > p.maxCount
  · rw [if_pos hmax, if_pos hmax]
    refine ⟨fun c h => (by cases h), ?_⟩
    rintro _ ⟨⟩
    rfl
  rw [if_neg hmax, if_neg hmax]
  cases hwords : Chunk.readWords? p.order count rest with
  | none =>
    rw [if_pos (htruncated.mp hwords)]
    refine ⟨fun c h => (by cases h), ?_⟩
    rintro _ ⟨⟩
    rfl
  | some result =>
    obtain ⟨words, back⟩ := result
    have hroom : ¬ p.codeOffset + count * Word.size > data.length := by
      intro hlong
      rw [htruncated.mpr hlong] at hwords
      cases hwords
    have hread : orShort .countMissing (Chunk.readWords? p.order count r.rest) = .ok (words, back) := by
      rw [hrest, hwords]
      rfl
    obtain ⟨r', hmany, _, _, hback⟩ := (follows_words count).of_ok r hinside horder words back hread
    rw [if_neg hroom, hmany]
    refine ⟨?_, fun fault h => by cases h⟩
    rintro _ ⟨⟩
    refine ⟨r', rfl, hback, ?_⟩
    rw [← hdata, ← List.append_assoc, List.take_left' hfront]

/-- Reads the number behind the first one after the header. -/
def lastLine (p : Profile) : InPlace Reader Nat := do
  seek Profile.headerSize
  let _ ← raw p.intWidth.bytes
  number p.intWidth.bytes

/-- The lines that a reader reads behind the header are those of the prologue, and what is left are the
three bytes of its flags. -/
theorem run_lines {p : Profile} {f : Prologue} (hf : f.Fits p) :
    (run (numberFrom Profile.headerSize p.intWidth.bytes)
      { buffer := p.header ++ f.bytes p, order := p.order }).1 = .ok f.lineDefined ∧
    ∃ r, run (lastLine p) { buffer := p.header ++ f.bytes p, order := p.order } =
        (.ok f.lastLineDefined, r) ∧
      r.rest = [f.paramCount, f.vararg, f.maxStack] := by
  have hparts : f.bytes p = Unsigned.encode p.order p.intWidth.bytes f.lineDefined ++
      (Unsigned.encode p.order p.intWidth.bytes f.lastLineDefined ++
        [f.paramCount, f.vararg, f.maxStack]) := List.append_assoc ..
  rw [hparts]
  generalize [f.paramCount, f.vararg, f.maxStack] = flags
  obtain ⟨_, _, _, _, _, hline⟩ := @run_numberFrom p.order _ _ _ _ _ p.length_header hf.line_lt
  refine ⟨congrArg Prod.fst hline, ?_⟩
  generalize hdata : p.header ++ (Unsigned.encode p.order p.intWidth.bytes f.lineDefined ++ _) = data
  have hseek : 0 ≤ (Profile.headerSize : Int) ∧ (Profile.headerSize : Int) ≤ data.length := by
    rw [← hdata, List.length_append, p.length_header]
    omega
  let r : Reader := { buffer := data, order := p.order, position := Profile.headerSize }
  have hrest : r.rest = _ := (congrArg (List.drop _) hdata.symm).trans (List.drop_left' p.length_header)
  have hskip : orShort .bufferTooShort (Unsigned.split? p.intWidth.bytes r.rest) =
      .ok (Unsigned.encode p.order p.intWidth.bytes f.lineDefined,
        Unsigned.encode p.order p.intWidth.bytes f.lastLineDefined ++ flags) := by
    rw [hrest, Unsigned.split?_eq_some_iff.mpr ⟨Unsigned.length_encode .., rfl⟩]
    rfl
  obtain ⟨r₁, hrun₁, hinside₁, horder₁, hrest₁⟩ :=
    (follows_raw _).of_ok r (Int.ofNat_le.mp hseek.2) rfl _ _ hskip
  have hlast : orShort .bufferTooShort (Unsigned.read? p.order p.intWidth.bytes r₁.rest) =
      .ok (f.lastLineDefined, flags) := by
    rw [hrest₁, Unsigned.read?_encode_append p.order hf.lastLine_lt]
    rfl
  obtain ⟨r₂, hrun₂, _, _, hrest₂⟩ := (follows_number _).of_ok r₁ hinside₁ horder₁ _ _ hlast
  refine ⟨r₂, ?_, hrest₂⟩
  rw [lastLine, run_bind_ok ((run_seek _).trans (if_pos hseek))]
  exact (run_bind_ok hrun₁).trans hrun₂

end Cursor

namespace Pen
open InPlace
variable {order : ByteOrder}

/-- A write in place adds the bytes of an outcome to the buffer, or it fails as the outcome does. -/
structure Adds (order : ByteOrder) (x : InPlace Writer Unit) (outcome : Except Fault Bytes) : Prop where
  of_ok : ∀ w : Writer, w.order = order → ∀ bytes, outcome = .ok bytes → run x w = (.ok (), w.raw bytes)
  of_error : ∀ w : Writer, w.order = order → ∀ fault, outcome = .error fault →
    (run x w).1 = .error fault

private theorem adds_raw (bytes : Bytes) : Adds order (raw bytes) (.ok bytes) where
  of_ok w _ bytes' h := by
    cases h
    rfl
  of_error w _ fault h := by cases h

private theorem adds_number (width : Width) (n : Int) :
    Adds order (perform (.unsigned (.int n) width.bytes)) (Unsigned.encode? order width.bytes n) := by
  have hrun (w : Writer) : run (perform (.unsigned (.int n) width.bytes)) w = w.number width.bytes n := by
    rw [run_perform, Writer.step, Writer.unsigned, Width.ofBytes_bytes]
    rfl
  constructor
  · intro w horder bytes h
    rw [hrun, Writer.number, horder, h]
  · intro w horder fault h
    rw [hrun, Writer.number, horder, h]

/-- The bytes of two outcomes in a row. -/
def inRow (front back : Except Fault Bytes) : Except Fault Bytes := do
  return (← front) ++ (← back)

/-- Writes one after the other add their bytes in a row. -/
private theorem Adds.seq {x y : InPlace Writer Unit} {front back : Except Fault Bytes}
    (hx : Adds order x front) (hy : Adds order y back) :
    Adds order (do x; y) (inRow front back) where
  of_ok w horder bytes h := by
    obtain ⟨bytes₁, hfront, h⟩ := Outcome.bind_eq_ok_iff.mp h
    obtain ⟨bytes₂, hback, h⟩ := Outcome.bind_eq_ok_iff.mp h
    cases h
    rw [run_bind_ok (hx.of_ok w horder bytes₁ hfront), hy.of_ok (w.raw bytes₁) horder bytes₂ hback]
    simp only [Writer.raw, List.append_assoc]
  of_error w horder fault h := by
    rcases Outcome.bind_eq_error_iff.mp h with hfront | ⟨bytes₁, hfront, h⟩
    · rw [run_bind_error (hx.of_error w horder fault hfront)]
    · rw [run_bind_ok (hx.of_ok w horder bytes₁ hfront)]
      rcases Outcome.bind_eq_error_iff.mp h with hback | ⟨bytes₂, _, h⟩
      · exact hy.of_error (w.raw bytes₁) horder fault hback
      · cases h

def words : List Nat → InPlace Writer Unit
  | [] => return
  | word :: rest => do
    perform (.unsigned (.int word) Word.size)
    words rest

def chunk (c : Chunk) : InPlace Writer Unit := do
  raw (c.profile.header ++ c.prologue.bytes c.profile)
  perform (.unsigned (.int c.code.size) c.profile.intWidth.bytes)
  words c.code.words
  raw c.rest

private theorem adds_words (p : Profile) (ws : List Nat) :
    Adds p.order (words ws) (Chunk.codeBytes p ws) := by
  induction ws with
  | nil =>
    refine ⟨fun w _ bytes h => ?_, fun w _ fault h => by cases h⟩
    cases h
    simp [words, Writer.raw]
  | cons word ws ih => exact (adds_number .four word).seq ih

/-- The bytes of a chunk are its parts in a row. -/
private theorem serialize_eq_inRow (c : Chunk) :
    c.serialize = inRow (.ok (c.profile.header ++ c.prologue.bytes c.profile))
      (inRow (Unsigned.encode? c.profile.order c.profile.intWidth.bytes c.code.size)
        (inRow (Chunk.codeBytes c.profile c.code.words) (.ok c.rest))) := by
  rw [Chunk.serialize]
  cases Unsigned.encode? c.profile.order c.profile.intWidth.bytes c.code.size with
  | error fault => rfl
  | ok count =>
    cases Chunk.codeBytes c.profile c.code.words with
    | error fault => rfl
    | ok code =>
      show Except.ok _ = Except.ok _
      simp only [List.append_assoc]

private theorem adds_chunk (c : Chunk) : Adds c.profile.order (chunk c) c.serialize := by
  rw [serialize_eq_inRow]
  exact (adds_raw _).seq ((adds_number c.profile.intWidth c.code.size).seq
    ((adds_words c.profile c.code.words).seq (adds_raw c.rest)))

/-- The bytes that a writer is left with are those of the chunk. -/
theorem run_chunk (c : Chunk) :
    (run (do chunk c; return (← get).buffer) { order := c.profile.order }).1 = c.serialize := by
  have hchunk := adds_chunk c
  cases hbytes : c.serialize with
  | ok bytes =>
    rw [run_bind_ok (hchunk.of_ok _ rfl bytes hbytes)]
    rfl
  | error fault =>
    rw [run_bind_error (hchunk.of_error _ rfl fault hbytes)]

end Pen
end LuaBytecode
