import LuaBytecode.Proofs.Fault
import LuaBytecode.Proofs.WordArray.InPlace

/-! Faults of the steps on an array: every write makes its checks in a fixed order, the first that fails
is its fault, and an array is as it was after any step that fails. -/
namespace LuaBytecode

namespace Outcome
variable {α β : Type}

/-- The first fault of checks that are made in turn. -/
def first? (checks : List (Option Fault)) : Option Fault := checks.findSome? id

private theorem first?_cons_none (checks : List (Option Fault)) :
    first? (none :: checks) = first? checks := rfl

/-- A computation in parts makes the check of its first part, then those of the rest. -/
theorem fault?_bind {x : Except Fault α} {f : α → Except Fault β} {check : Option Fault}
    {checks : List (Option Fault)} (hx : fault? x = check)
    (hf : ∀ a, x = .ok a → fault? (f a) = first? checks) :
    fault? (x >>= f) = first? (check :: checks) := by
  cases x with
  | error fault =>
    rw [← hx]
    rfl
  | ok a =>
    rw [← hx]
    exact hf a rfl

private theorem fault?_guard {c : Prop} [Decidable c] {fault : Fault} {x : Except Fault α}
    {checks : List (Option Fault)} (hx : ¬ c → fault? x = first? checks) :
    fault? (if c then throw fault else x) = first? ((if c then some fault else none) :: checks) := by
  split
  · rfl
  · exact hx ‹_›

private theorem fault?_map (x : Except Fault α) (f : α → β) : fault? (do return f (← x)) = fault? x := by
  cases x <;> rfl

end Outcome

namespace Word
open Outcome

/-- The fault of a datum that is no word. A truth value is none, nor is a number beyond 32 bits. -/
def fault? : Datum → Option Fault
  | .int value => if 0 ≤ value ∧ value < 2 ^ 32 then none else some (.wordOutOfRange value)
  | datum => some (.notWord datum.kind)

private theorem fault?_ofDatum (datum : Datum) : Outcome.fault? (ofDatum datum) = fault? datum := by
  cases datum with
  | int value =>
    have hbound : ((bound : Nat) : Int) = 2 ^ 32 := rfl
    rw [ofDatum, fault?, hbound]
    split_ifs <;> rfl
  | _ => rfl

private theorem fault?_ofData (data : List Datum) :
    Outcome.fault? (ofData data) = data.findSome? fault? := by
  induction data with
  | nil => rfl
  | cons datum data ih =>
    rw [ofData, List.findSome?_cons, ← fault?_ofDatum]
    cases ofDatum datum with
    | error fault => rfl
    | ok word =>
      rw [ok_bind, fault?_map, ih]
      rfl

end Word

namespace Datum

/-- What a walk over the datum meets; nothing if it cannot be walked over. -/
def items (value : Datum) : List Datum := value.elements?.getD []

/-- The fault of a datum that cannot be walked over. -/
def walkFault? (value : Datum) : Option Fault :=
  if value.elements?.isSome then none else some .notIterable

end Datum

/-- The words of a datum are two checks: that it can be walked over and that it meets words only. -/
theorem Word.fault?_ofIterable_bind {α : Type} {value : Datum} {f : List Nat → Except Fault α}
    {checks : List (Option Fault)}
    (hf : ∀ words, ofIterable value = .ok words → Outcome.fault? (f words) = Outcome.first? checks) :
    Outcome.fault? (ofIterable value >>= f) =
      Outcome.first? (value.walkFault? :: value.items.findSome? fault? :: checks) := by
  rw [Datum.walkFault?, Datum.items]
  rw [ofIterable] at hf ⊢
  generalize value.elements? = elements at hf ⊢
  cases elements with
  | none => rfl
  | some data =>
    rw [Option.isSome_some, if_pos rfl, Outcome.first?_cons_none]
    exact Outcome.fault?_bind (fault?_ofData data) hf

theorem Word.length_of_ofIterable {value : Datum} {words : List Nat}
    (h : ofIterable value = .ok words) : words.length = value.items.length := by
  rw [Datum.items, (ofIterable_eq_ok_iff.mp h).2]
  simp

/-- The fault of a slice with a step of zero. -/
def Slice.stepFault? (s : Slice) : Option Fault := if s.step ≠ some 0 then none else some .zeroStep

/-- The fault of an index that a machine word of 64 bits does not hold. -/
def Index.reachFault? (index : Int) : Option Fault :=
  if -2 ^ 63 ≤ index ∧ index < 2 ^ 63 then none else some .indexTooLong

theorem Index.fitsWord_iff {index : Int} :
    fitsWord index = true ↔ -2 ^ 63 ≤ index ∧ index < 2 ^ 63 := by
  simp [fitsWord]

namespace WordArray
open Outcome

/-- The fault of a length beyond the limit. -/
def limitFault? (a : WordArray) (length : Int) : Option Fault :=
  match a.limit with
  | some limit => if limit < length then some (.tooManyWords length.toNat limit) else none
  | none => none

/-- The fault of an index that names no place of the array. -/
def indexFault? (a : WordArray) (index : Int) : Option Fault :=
  if -(a.size : Int) ≤ index ∧ index < a.size then none else some .indexOutOfRange

/-- The fault of a number of values that a slice with a step does not take. -/
def sliceFault? (a : WordArray) (s : Slice) (given : Nat) : Option Fault :=
  if s.step = none ∨ s.step = some 1 ∨ given = s.count a.size then none
  else some (.sliceSize given (s.count a.size))

/-- The checks that a write makes, in their order; none for a step that is no write. -/
def writeChecks? (a : WordArray) : Step → Option (List (Option Fault))
  | .extend value => some
      [value.walkFault?, value.items.findSome? Word.fault?,
        a.limitFault? (a.size + value.items.length)]
  | .extendSelf => some [a.limitFault? (a.size + a.size)]
  | .insert index value => some
      [Word.fault? value, a.limitFault? (a.size + 1), Index.reachFault? index]
  | .append value => some [Word.fault? value, a.limitFault? (a.size + 1)]
  | .set (.index index) value => some [Word.fault? value, a.indexFault? index]
  | .set (.slice s) value => some
      [value.walkFault?, value.items.findSome? Word.fault?, s.stepFault?,
        a.sliceFault? s value.items.length,
        a.limitFault? (a.size - s.count a.size + value.items.length)]
  | _ => none

private theorem fault?_checkLength (a : WordArray) (length : Nat) :
    fault? (a.checkLength length) = a.limitFault? length := by
  rw [checkLength, limitFault?]
  cases a.limit with
  | none => rfl
  | some limit =>
    simp only [gt_iff_lt, Int.toNat_natCast]
    split_ifs <;> rfl

private theorem fault?_position (a : WordArray) (index : Int) :
    fault? (a.position index) = a.indexFault? index := by
  rw [position, Index.position?, indexFault?]
  split_ifs <;> first | rfl | omega

private theorem fault?_checkStep (s : Slice) : fault? (checkStep s) = s.stepFault? := by
  simp only [checkStep, Slice.stepFault?, Slice.stride_eq_zero_iff, ne_eq, ite_not]
  split_ifs <;> rfl

theorem isPlain_iff (s : Slice) : s.isPlain = true ↔ s.step = none ∨ s.step = some 1 := by
  rw [Slice.isPlain, Slice.stride]
  cases s.step <;> simp

private theorem fault?_set (a : WordArray) (index : Int) (value : Datum) :
    fault? (a.set index value) = first? [Word.fault? value, a.indexFault? index] := by
  refine fault?_bind (Word.fault?_ofDatum value) fun word _ => ?_
  exact fault?_bind (a.fault?_position index) fun i _ => rfl

private theorem fault?_push (a : WordArray) (value : Datum) :
    fault? (a.push value) = first? [Word.fault? value, a.limitFault? (a.size + 1)] := by
  refine fault?_bind (Word.fault?_ofDatum value) fun word _ => ?_
  exact fault?_bind (a.fault?_checkLength (a.size + 1)) fun _ _ => rfl

private theorem fault?_insert (a : WordArray) (index : Int) (value : Datum) :
    fault? (a.insert index value) =
      first? [Word.fault? value, a.limitFault? (a.size + 1), Index.reachFault? index] := by
  have hreach : (if (!Index.fitsWord index) = true then some Fault.indexTooLong else none) =
      Index.reachFault? index := by
    simp only [Index.reachFault?, ← Index.fitsWord_iff]
    cases Index.fitsWord index <;> rfl
  refine fault?_bind (Word.fault?_ofDatum value) fun word _ => ?_
  refine fault?_bind (a.fault?_checkLength (a.size + 1)) fun _ _ => ?_
  rw [← hreach]
  exact fault?_guard fun _ => rfl

private theorem fault?_append (a : WordArray) (words : List Nat) :
    fault? (a.append words) = first? [a.limitFault? (a.size + words.length)] :=
  fault?_bind (a.fault?_checkLength (a.size + words.length)) fun _ _ => rfl

private theorem fault?_extend (a : WordArray) (value : Datum) :
    fault? (a.extend value) =
      first? [value.walkFault?, value.items.findSome? Word.fault?,
        a.limitFault? (a.size + value.items.length)] := by
  refine Word.fault?_ofIterable_bind fun words hwords => ?_
  rw [fault?_append, Word.length_of_ofIterable hwords]

private theorem fault?_setSlice (a : WordArray) (s : Slice) (value : Datum) :
    fault? (a.setSlice s value) =
      first? [value.walkFault?, value.items.findSome? Word.fault?, s.stepFault?,
        a.sliceFault? s value.items.length,
        a.limitFault? (a.size - s.count a.size + value.items.length)] := by
  refine Word.fault?_ofIterable_bind fun words hwords => ?_
  have hlen := Word.length_of_ofIterable hwords
  have hsize : (if (!s.isPlain && words.length != s.count a.size) = true
      then some (Fault.sliceSize words.length (s.count a.size)) else none) =
        a.sliceFault? s value.items.length := by
    have hsuits : (s.step = none ∨ s.step = some 1 ∨ value.items.length = s.count a.size) ↔
        s.isPlain = true ∨ value.items.length = s.count a.size := by
      rw [isPlain_iff, or_assoc]
    simp only [sliceFault?, hsuits, hlen]
    by_cases hs : s.isPlain = true <;>
      by_cases hcount : value.items.length = s.count a.size <;> simp [hs, hcount]
  have hlimit := a.fault?_checkLength (a.size - s.count a.size + words.length)
  rw [hlen, Nat.cast_add, Nat.cast_sub (s.count_le a.size)] at hlimit
  refine fault?_bind (fault?_checkStep s) fun _ _ => ?_
  rw [← hsize]
  refine fault?_guard fun _ => ?_
  rw [hlen]
  exact fault?_bind hlimit fun _ _ => rfl

theorem fault?_step (a : WordArray) (s : Step) : fault? (a.step s).1 = fault? (a.advance s) := by
  rw [step]
  cases a.advance s <;> rfl

/-- The first check that fails is the fault of a write; a write that passes them all succeeds. -/
theorem fault?_write {a : WordArray} {s : Step} {checks : List (Option Fault)}
    (h : a.writeChecks? s = some checks) : fault? (a.step s).1 = first? checks := by
  rw [fault?_step]
  cases s with
  | set key value =>
    cases key with
    | index i =>
      cases h
      exact (fault?_map _ _).trans (a.fault?_set i value)
    | slice s =>
      cases h
      exact (fault?_map _ _).trans (a.fault?_setSlice s value)
  | insert i value =>
    cases h
    exact (fault?_map _ _).trans (a.fault?_insert i value)
  | append value =>
    cases h
    exact (fault?_map _ _).trans (a.fault?_push value)
  | extend value =>
    cases h
    exact (fault?_map _ _).trans (a.fault?_extend value)
  | extendSelf =>
    cases h
    exact (fault?_map _ _).trans (a.fault?_append a.words)
  | _ => cases h

theorem step_of_error {a : WordArray} {s : Step} {fault : Fault} (h : (a.step s).1 = .error fault) :
    (a.step s).2 = a := by
  rw [step] at h ⊢
  cases hadvance : a.advance s with
  | ok result =>
    rw [hadvance] at h
    cases h
  | error fault' => rfl

/-- The categories of the faults of writes: a fault is about the instruction words, but for four. -/
def WriteCategory (fault : Fault) : Prop :=
  fault.category = .instructionWord ∨
    (fault, fault.category) ∈ [(.notIterable, .kind), (.zeroStep, .value), (.indexOutOfRange, .index),
      (.indexTooLong, .overflow)]

/-- A check whose fault, if it fails, is of one of these categories. -/
def Classified (check : Option Fault) : Prop := ∀ fault, check = some fault → WriteCategory fault

private theorem classified_ite (c : Prop) [Decidable c] {fault : Fault} (h : WriteCategory fault) :
    Classified (if c then none else some fault) := by
  intro fault' hfault
  split_ifs at hfault
  cases hfault
  exact h

private theorem classified_word (datum : Datum) : Classified (Word.fault? datum) := by
  cases datum with
  | int value => exact classified_ite _ (.inl rfl)
  | _ =>
    rintro _ ⟨⟩
    exact .inl rfl

private theorem classified_items (value : Datum) : Classified (value.items.findSome? Word.fault?) := by
  intro fault hfault
  obtain ⟨datum, _, hdatum⟩ := List.exists_of_findSome?_eq_some hfault
  exact classified_word datum fault hdatum

/-- The limit of an array that keeps to it is not negative. -/
theorem classified_limit {a : WordArray} (ha : a.Valid) (length : Int) :
    Classified (a.limitFault? length) := by
  intro fault hfault
  rw [limitFault?] at hfault
  split at hfault
  · rename_i limit hlimit
    split_ifs at hfault
    cases hfault
    have hsize := ha.size_le limit hlimit
    exact .inl (Fault.category_of_isWorded (Fault.isWorded_tooManyWords (by omega) _))
  · cases hfault

private theorem classified_walk (value : Datum) : Classified value.walkFault? :=
  classified_ite _ (.inr (by decide))

private theorem classified_step (s : Slice) : Classified s.stepFault? := classified_ite _ (.inr (by decide))

private theorem classified_slice (a : WordArray) (s : Slice) (given : Nat) :
    Classified (a.sliceFault? s given) := classified_ite _ (.inl rfl)

private theorem classified_index (a : WordArray) (index : Int) : Classified (a.indexFault? index) :=
  classified_ite _ (.inr (by decide))

private theorem classified_reach (index : Int) : Classified (Index.reachFault? index) :=
  classified_ite _ (.inr (by decide))

private theorem classified_of_write {a : WordArray} (ha : a.Valid) {s : Step} {checks : List (Option Fault)}
    (h : a.writeChecks? s = some checks) : ∀ check ∈ checks, Classified check := by
  cases s with
  | set key value =>
    cases key with
    | index i =>
      cases h
      simp [classified_word, classified_index]
    | slice s =>
      cases h
      simp [classified_walk, classified_items, classified_step, classified_slice, classified_limit ha]
  | insert i value =>
    cases h
    simp [classified_word, classified_limit ha, classified_reach]
  | append value =>
    cases h
    simp [classified_word, classified_limit ha]
  | extend value =>
    cases h
    simp [classified_walk, classified_items, classified_limit ha]
  | extendSelf =>
    cases h
    simp [classified_limit ha]
  | _ => cases h

/-- Carried out in place on an array of words within its limit, a step that fails leaves the array as it
was, and the step does what it does as a whole. A write fails with the first of its checks that fails
and succeeds if none does. -/
theorem perform_fault {a : WordArray} (ha : a.Valid) (s : Step) :
    let result := InPlace.run (Edit.perform s) a
    result = a.step s ∧
    (∀ fault, result.1 = .error fault → result.2 = a) ∧
    ∀ checks, a.writeChecks? s = some checks →
      Outcome.fault? result.1 = Outcome.first? checks ∧
      ∀ fault, some fault ∈ checks → WriteCategory fault := by
  intro result
  have hstep : result = a.step s := Edit.run_perform ha s
  refine ⟨hstep, ?_, ?_⟩
  · rw [hstep]
    exact fun fault hfault => step_of_error hfault
  · intro checks hchecks
    rw [hstep]
    exact ⟨fault?_write hchecks, fun fault hfault => classified_of_write ha hchecks _ hfault fault rfl⟩

/-- Of three faults at once the first bad value is reported, ahead of the step of zero; the words twice
over are too many; and an insertion past the end goes to the end. -/
theorem perform_fault_order :
    let a : WordArray := ⟨[7, 8, 9], some 4⟩
    a.Valid ∧
    InPlace.run (Edit.perform (.set (.slice ⟨none, none, some 0⟩)
      (.list [.int 1, .bool true, .int (-1)]))) a = (.error (.notWord .bool), a) ∧
    InPlace.run (Edit.perform .extendSelf) a = (.error (.tooManyWords 6 4), a) ∧
    Outcome.fault? (InPlace.run (Edit.perform (.insert (2 ^ 63 - 1) (.int 0))) a).1 = none := by
  intro a
  have ha : a.Valid := by
    refine ⟨by decide, ?_⟩
    rintro _ ⟨⟩
    decide
  have hfails {s : Step} {checks : List (Option Fault)} {fault : Fault}
      (hchecks : a.writeChecks? s = some checks) (hfirst : Outcome.first? checks = some fault) :
      InPlace.run (Edit.perform s) a = (.error fault, a) := by
    obtain ⟨_, hsame, hwrite⟩ := perform_fault ha s
    have hfault := Outcome.fault?_eq_some_iff.mp ((hwrite checks hchecks).1.trans hfirst)
    exact Prod.ext hfault (hsame fault hfault)
  refine ⟨ha, hfails rfl (by decide), hfails rfl (by decide), ?_⟩
  rw [((perform_fault ha _).2.2 _ rfl).1]
  decide

/-- An index that a machine word does not hold is refused, although the value is a word and there is no
limit. -/
theorem insert_beyond_machine_word :
    let a : WordArray := ⟨[1, 2], none⟩
    a.Valid ∧ Word.fault? (.int 5) = none ∧ a.limitFault? (a.size + 1) = none ∧
      a.step (.insert (2 ^ 63) (.int 5)) = (.error .indexTooLong, a) := by
  refine ⟨⟨by decide, ?_⟩, by decide, rfl, by decide⟩
  rintro _ ⟨⟩

end WordArray
end LuaBytecode
