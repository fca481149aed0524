import LuaBytecode.Proofs.WordArray.Faults
import Mathlib.Order.Bounds.Basic

/-! Arrays as sequences. What an array can do beyond looking at a place, setting, deleting and inserting
is made of these four: searches look at one place after the other until there is none. Carried out in
this way every step still does what it does as a whole, and what it does is the law of the plain list. -/
namespace LuaBytecode

namespace Index

private theorem insertion_eq (n : Nat) (index : Int) :
    (insertion n index : Int) = max 0 (min (n : Int) (if index < 0 then index + n else index)) := by
  rw [insertion]
  omega

/-- The bound of a search: a negative bound counts from the end, but not past the first place. -/
def bound (n : Nat) (index : Int) : Int := if index < 0 then max 0 (index + n) else index

end Index

namespace WordArray
variable {a : WordArray} {value : Datum} {stop : Option Int} {i : Nat}

theorem get_natCast_eq_ok_iff {word : Nat} : a.get i = .ok word ↔ a.words[i]? = some word := by
  by_cases hi : i < a.words.length
  · rw [Edit.get_natCast hi, Except.ok.injEq, List.getElem?_eq_getElem hi, Option.some.injEq]
  · have hnone : Index.position? a.words.length i = none :=
      Index.position?_eq_none_iff.mpr fun h => by omega
    rw [get, Index.get?, hnone, List.getElem?_eq_none (Nat.not_lt.mp hi)]
    simp

theorem lt_size_of_get {word : Nat} (h : a.get i = .ok word) : i < a.size :=
  (List.getElem?_eq_some_iff.mp (get_natCast_eq_ok_iff.mp h)).1

/-- The only fault of looking at a place is that there is none. -/
theorem get_eq_error {fault : Fault} (h : a.get i = .error fault) :
    fault = .indexOutOfRange ∧ a.size ≤ i := by
  constructor
  · rw [get] at h
    split at h
    · cases h
    · cases h
      rfl
  · by_contra hi
    rw [Edit.get_natCast (Nat.not_le.mp hi)] at h
    cases h

/-! Searching place by place. -/

/-- Looks at one place after the other, as long as they are before `stop`. The value is not there if the
search comes to the end of the array. -/
def probe (a : WordArray) (value : Datum) (stop : Option Int) (i : Nat) : Except Fault Nat :=
  if stop.all fun bound => (i : Int) < bound then
    match h : a.get i with
    | .ok word =>
      have : i < a.size := lt_size_of_get h
      if value.isNumber word then .ok i else probe a value stop (i + 1)
    | .error fault => if fault.category = .index then .error .valueAbsent else .error fault
  else .error .valueAbsent
termination_by a.size - i

/-- The search from `start` on and before `stop`; a negative bound counts from the end. -/
def index (a : WordArray) (value : Datum) (start : Int) (stop : Option Int) : Except Fault Nat :=
  let first := if start < 0 then max (a.size + start) 0 else start
  a.probe value (stop.map fun bound => if bound < 0 then bound + a.size else bound) first.toNat

/-- The words from a place on, met one by one until there is none. -/
def walk (a : WordArray) (i : Nat) : Except Fault (List Nat) :=
  match h : a.get i with
  | .ok word => do
    have : i < a.size := lt_size_of_get h
    return word :: (← walk a (i + 1))
  | .error fault => if fault.category = .index then .ok [] else .error fault
termination_by a.size - i

private theorem walk_eq (a : WordArray) (i : Nat) : a.walk i = .ok (a.words.drop i) := by
  fun_induction walk a i with
  | case1 i word hget hlt ih =>
    obtain ⟨hi, hword⟩ := List.getElem?_eq_some_iff.mp (get_natCast_eq_ok_iff.mp hget)
    rw [ih, Outcome.ok_bind, List.drop_eq_getElem_cons hi, hword]
    rfl
  | case2 i fault hget hindex => rw [List.drop_eq_nil_of_le (get_eq_error hget).2]
  | case3 i fault hget hindex =>
    rw [(get_eq_error hget).1] at hindex
    exact absurd rfl hindex

/-- The place holds a word that the value equals. -/
def Holds (a : WordArray) (value : Datum) (i : Nat) : Prop :=
  ∃ word, a.words[i]? = some word ∧ value.isNumber word = true

/-- The places from `start` on and before `stop` that hold the value. -/
def matching (a : WordArray) (value : Datum) (start : Int) (stop : Option Int) : Set Nat :=
  {i | start ≤ i ∧ (∀ bound ∈ stop, (i : Int) < bound) ∧ a.Holds value i}

/-- The outcome of a search: the least of the places, or that there is none. -/
def Finds (places : Set Nat) (outcome : Except Fault Nat) : Prop :=
  (∃ i, outcome = .ok i ∧ IsLeast places i) ∨ outcome = .error .valueAbsent ∧ places = ∅

theorem all_lt_iff :
    stop.all (fun bound => (i : Int) < bound) = true ↔ ∀ bound ∈ stop, (i : Int) < bound := by
  cases stop <;> simp

private theorem matching_of_stop (h : ¬ stop.all (fun bound => (i : Int) < bound) = true) :
    a.matching value i stop = ∅ := by
  rw [Set.eq_empty_iff_forall_notMem]
  rintro j ⟨hstart, hstop, _⟩
  refine h (all_lt_iff.mpr fun bound hbound => ?_)
  exact Int.lt_of_le_of_lt hstart (hstop bound hbound)

private theorem matching_of_size_le (h : a.size ≤ i) : a.matching value i stop = ∅ := by
  rw [Set.eq_empty_iff_forall_notMem]
  rintro j ⟨hstart, _, word, hword, _⟩
  have hj : j < a.size := (List.getElem?_eq_some_iff.mp hword).1
  omega

private theorem isLeast_matching (hstop : stop.all (fun bound => (i : Int) < bound) = true)
    (h : a.Holds value i) : IsLeast (a.matching value i stop) i :=
  ⟨⟨Int.le_refl _, all_lt_iff.mp hstop, h⟩, fun _ hj => Int.ofNat_le.mp hj.1⟩

/-- A place that does not hold the value can be passed over. -/
theorem matching_succ (h : ¬ a.Holds value i) :
    a.matching value i stop = a.matching value (i + 1 : Nat) stop := by
  ext j
  constructor
  · rintro ⟨hstart, hstop, hj⟩
    have hne : i ≠ j := fun heq => h (heq ▸ hj)
    exact ⟨by omega, hstop, hj⟩
  · rintro ⟨hstart, hstop, hj⟩
    exact ⟨by omega, hstop, hj⟩

/-- A search finds the least place that holds the value, and fails only if there is none. -/
theorem finds_probe (a : WordArray) (value : Datum) (stop : Option Int) (i : Nat) :
    Finds (a.matching value i stop) (a.probe value stop i) := by
  fun_induction probe a value stop i with
  | case1 i hstop word hget hlt hequal =>
    have hholds : a.Holds value i := ⟨word, get_natCast_eq_ok_iff.mp hget, hequal⟩
    exact .inl ⟨i, rfl, isLeast_matching hstop hholds⟩
  | case2 i hstop word hget hlt hequal ih =>
    have hholds : ¬ a.Holds value i := by
      rintro ⟨word', hword', hequal'⟩
      rw [get_natCast_eq_ok_iff.mp hget, Option.some.injEq] at hword'
      exact hequal (hword' ▸ hequal')
    rwa [matching_succ hholds]
  | case3 i hstop fault hget hindex => exact .inr ⟨rfl, matching_of_size_le (get_eq_error hget).2⟩
  | case4 i hstop fault hget hindex =>
    rw [(get_eq_error hget).1] at hindex
    exact absurd rfl hindex
  | case5 i hstop => exact .inr ⟨rfl, matching_of_stop hstop⟩

/-! A search place by place gives what the search as a whole gives. -/

private theorem drop_zipIdx {word : Nat} (h : a.words[i]? = some word) :
    a.words.zipIdx.drop i = (word, i) :: a.words.zipIdx.drop (i + 1) := by
  obtain ⟨hi, hword⟩ := List.getElem?_eq_some_iff.mp h
  rw [List.drop_eq_getElem_cons (by simpa using hi), List.getElem_zipIdx, hword, Nat.zero_add]

private theorem le_of_mem_drop_zipIdx {word j : Nat} (h : (word, j) ∈ a.words.zipIdx.drop i) :
    i ≤ j := by
  obtain ⟨k, hk, heq⟩ := List.mem_iff_getElem.mp h
  rw [List.getElem_drop, List.getElem_zipIdx, Prod.mk.injEq] at heq
  omega

private theorem probe_eq_find? (a : WordArray) (value : Datum) (stop : Option Int) (i : Nat) :
    a.probe value stop i =
      match (a.words.zipIdx.drop i).find? fun (word, _) => value.isNumber word with
      | some (_, j) =>
        if stop.all fun bound => (j : Int) < bound then .ok j else .error .valueAbsent
      | none => .error .valueAbsent := by
  fun_induction probe a value stop i with
  | case1 i hstop word hget hlt hequal =>
    rw [drop_zipIdx (get_natCast_eq_ok_iff.mp hget)]
    simp only [List.find?_cons, hequal, hstop, if_true]
  | case2 i hstop word hget hlt hequal ih =>
    rw [ih, drop_zipIdx (get_natCast_eq_ok_iff.mp hget)]
    simp only [List.find?_cons, hequal]
  | case3 i hstop fault hget hindex =>
    have hend : a.words.zipIdx.length ≤ i := by
      rw [List.length_zipIdx]
      exact (get_eq_error hget).2
    rw [List.drop_eq_nil_of_le hend, List.find?_nil]
  | case4 i hstop fault hget hindex =>
    rw [(get_eq_error hget).1] at hindex
    exact absurd rfl hindex
  | case5 i hstop =>
    -- the search as a whole may find a place here, but only one past the bound
    split
    · rename_i word j hfind
      have hij := le_of_mem_drop_zipIdx (List.mem_of_find?_eq_some hfind)
      rw [if_neg]
      intro hj
      refine hstop (all_lt_iff.mpr fun bound hbound => ?_)
      exact Int.lt_of_le_of_lt (Int.ofNat_le.mpr hij) (all_lt_iff.mp hj bound hbound)
    · rfl

theorem index_eq_find (a : WordArray) (value : Datum) (start : Int) (stop : Option Int) :
    a.index value start stop = a.find value start stop := by
  have horigin : (if start < 0 then max (a.size + start) 0 else start).toNat =
      if start < 0 then (a.size + start).toNat else start.toNat := by
    split_ifs <;> omega
  rw [index, find]
  dsimp only
  rw [probe_eq_find?, horigin]
  cases stop <;> rfl

/-- The places of a search with bounds that count from either end. -/
theorem finds_index (a : WordArray) (value : Datum) (start : Int) (stop : Option Int) :
    Finds (a.matching value (Index.bound a.size start) (stop.map (Index.bound a.size)))
      (a.index value start stop) := by
  have hplaces : a.matching value (Index.bound a.size start) (stop.map (Index.bound a.size)) =
      a.matching value ((if start < 0 then max (a.size + start) 0 else start).toNat : Nat)
        (stop.map fun bound => if bound < 0 then bound + a.size else bound) := by
    ext i
    refine and_congr ?_ (and_congr ?_ Iff.rfl)
    · rw [Index.bound]
      omega
    · cases stop with
      | none => simp
      | some bound =>
        simp only [Option.map_some, Option.mem_some, forall_eq', Index.bound]
        omega
  rw [hplaces]
  exact finds_probe ..

namespace Finds
variable {places : Set Nat} {outcome : Except Fault Nat}

private theorem eq_ok_iff (h : Finds places outcome) : outcome = .ok i ↔ IsLeast places i := by
  rcases h with ⟨j, rfl, hj⟩ | ⟨rfl, hnone⟩
  · rw [Except.ok.injEq]
    constructor
    · rintro rfl
      exact hj
    · exact fun hi => hj.unique hi
  · constructor
    · intro h
      cases h
    · intro hi
      rw [hnone] at hi
      cases hi.1

private theorem eq_error_iff (h : Finds places outcome) : outcome = .error .valueAbsent ↔ places = ∅ := by
  rcases h with ⟨j, rfl, hj⟩ | ⟨rfl, hnone⟩
  · constructor
    · intro h
      cases h
    · intro hnone
      rw [hnone] at hj
      cases hj.1
  · simp [hnone]

end Finds
end WordArray

namespace Edit
open InPlace
variable {a : WordArray}

/-- Deletes the first place that holds the value. -/
def removeFirst (value : Datum) : Edit Unit := do
  let i ← look (·.index value 0 none)
  deleteIndex i

private theorem run_removeFirst (value : Datum) (a : WordArray) :
    run (removeFirst value) a = commit a (a.remove value) := by
  have hsearch : (fun a : WordArray => a.index value 0 none) = fun a => a.find value 0 none := by
    funext a
    exact a.index_eq_find value 0 none
  rw [removeFirst, hsearch]
  exact run_remove value a

/-- A step, with every search carried out place by place, too. -/
def carryOut : WordArray.Step → Edit WordArray.Reply
  | .find value start stop => do return .number (← look (·.index value start stop))
  | .remove value => do
    removeFirst value
    return .nothing
  | .count value => do
    let words ← look (·.walk 0)
    return .number (words.countP value.isNumber)
  | .contains value => do
    let words ← look (·.walk 0)
    return .truth (words.any value.isNumber)
  | s => perform s

/-- Place by place every step does what it does as a whole. -/
theorem run_carryOut (ha : a.Valid) (s : WordArray.Step) : run (carryOut s) a = a.step s := by
  have hwalk : run (look (·.walk 0)) a = (.ok a.words, a) := by
    rw [run_look, a.walk_eq, List.drop_zero]
  cases s with
  | find value start stop =>
    rw [carryOut, run_bind, run_look, a.index_eq_find, WordArray.step, WordArray.advance]
    cases a.find value start stop <;> rfl
  | remove value => exact run_edit_eq_step (run_removeFirst value a) rfl
  | count value =>
    rw [carryOut, run_bind_ok hwalk]
    rfl
  | contains value =>
    rw [carryOut, run_bind_ok hwalk]
    rfl
  | _ =>
    rw [← run_perform ha]
    rfl

end Edit

namespace WordArray
open Outcome
variable {a : WordArray}

/-! What the steps do to the list of words. -/

theorem checkLength_full {limit : Int} {length : Nat} (hlimit : limit ∈ a.limit) (h : limit < length) :
    a.checkLength length = .error (.tooManyWords length limit) := by
  rw [checkLength, Option.mem_def.mp hlimit]
  exact if_pos h

private theorem step_extendSelf (h : ∀ limit ∈ a.limit, (a.size + a.size : Int) ≤ limit) :
    a.step .extendSelf = (.ok .nothing, { a with words := a.words ++ a.words }) := by
  have happend : a.append a.words = .ok { a with words := a.words ++ a.words } :=
    append_eq_ok_iff.mpr ⟨fun limit hlimit => by simpa [size] using h limit hlimit, rfl⟩
  rw [step, advance, happend]
  rfl

private theorem step_extendSelf_full {limit : Int} (hlimit : limit ∈ a.limit)
    (h : limit < (a.size + a.size : Int)) :
    a.step .extendSelf = (.error (.tooManyWords (a.size + a.size) limit), a) := by
  have hcheck : a.checkLength (a.size + a.words.length) = _ := checkLength_full hlimit h
  rw [step, advance, append, hcheck]
  rfl

private theorem step_insert {i : Int} {word : Nat} (hword : word < Word.bound)
    (hlimit : ∀ limit ∈ a.limit, (a.size + 1 : Int) ≤ limit) :
    a.step (.insert i (.int word)) =
      if -2 ^ 63 ≤ i ∧ i < 2 ^ 63 then
        (.ok .nothing, { a with words := a.words.insertIdx (Index.insertion a.size i) word })
      else (.error .indexTooLong, a) := by
  have hcheck : a.checkLength (a.size + 1) = .ok () := checkLength_eq_ok_iff.mpr hlimit
  simp only [← Index.fitsWord_iff]
  rw [step, advance, insert, Word.ofDatum_natCast hword, ok_bind, hcheck, ok_bind]
  cases Index.fitsWord i <;> rfl

private theorem step_insert_full {i limit : Int} {word : Nat} (hword : word < Word.bound)
    (hlimit : limit ∈ a.limit) (h : limit < (a.size + 1 : Int)) :
    a.step (.insert i (.int word)) = (.error (.tooManyWords (a.size + 1) limit), a) := by
  have hcheck : a.checkLength (a.size + 1) = _ := checkLength_full hlimit h
  rw [step, advance, insert, Word.ofDatum_natCast hword, ok_bind, hcheck]
  rfl

private theorem step_pop {i : Int} {place word : Nat} (hplace : Index.position? a.size i = some place)
    (hword : a.words[place]? = some word) :
    a.step (.pop i) = (.ok (.number word), { a with words := a.words.eraseIdx place }) := by
  have hget : a.get i = .ok word := by
    rw [get, Index.get?, ← size, hplace]
    simp only [hword]
  rw [step, advance, pop, hget, delete, position, hplace]
  rfl

/-- Taking a word off the place that it was put at gives the array from before. -/
theorem step_pop_inserted {place word : Nat} (hplace : place ≤ a.size) :
    WordArray.step { a with words := a.words.insertIdx place word } (.pop place) =
      (.ok (.number word), a) := by
  have hsize : (a.words.insertIdx place word).length = a.size + 1 :=
    List.length_insertIdx_of_le_length hplace word
  have hposition : Index.position? (a.words.insertIdx place word).length place = some place :=
    Index.position?_eq_some_iff.mpr (by omega)
  have hword : (a.words.insertIdx place word)[place]? = some word := by
    rw [List.getElem?_insertIdx_self]
    exact if_pos hplace
  rw [step_pop (a := { a with words := a.words.insertIdx place word }) hposition hword]
  simp only [List.eraseIdx_insertIdx_self]

private theorem step_pop_outside {i : Int} (h : Index.position? a.size i = none) :
    a.step (.pop i) = (.error .indexOutOfRange, a) := by
  have hget : a.get i = .error .indexOutOfRange := by
    rw [get, Index.get?, ← size, h]
  rw [step, advance, pop, hget]
  rfl

theorem insertIdx_eq_take_drop {words : List Nat} {place word : Nat} (h : place ≤ words.length) :
    words.insertIdx place word = words.take place ++ word :: words.drop place := by
  obtain ⟨before, after, rfl, rfl, heq⟩ := List.exists_of_modifyTailIdx (List.cons word) h
  rw [List.insertIdx, heq, List.take_left, List.drop_left]

private theorem step_find {value : Datum} {start : Int} {stop : Option Int} :
    a.step (.find value start stop) = ((a.find value start stop).map .number, a) := by
  rw [step, advance]
  cases a.find value start stop <;> rfl

private theorem step_find_eq_ok_iff {value : Datum} {start : Int} {stop : Option Int} {i : Nat} :
    a.step (.find value start stop) = (.ok (.number i), a) ↔ a.find value start stop = .ok i := by
  rw [step_find]
  cases a.find value start stop <;> simp [Except.map]

private theorem step_find_eq_error_iff {value : Datum} {start : Int} {stop : Option Int} {fault : Fault} :
    a.step (.find value start stop) = (.error fault, a) ↔ a.find value start stop = .error fault := by
  rw [step_find]
  cases a.find value start stop <;> simp [Except.map]

private theorem step_remove {value : Datum} {i : Nat} (h : a.find value 0 none = .ok i) :
    a.step (.remove value) = (.ok .nothing, { a with words := a.words.eraseIdx i }) := by
  rw [step, advance, remove, h]
  rfl

private theorem step_remove_absent {value : Datum} {fault : Fault}
    (h : a.find value 0 none = .error fault) :
    a.step (.remove value) = (.error fault, a) := by
  rw [step, advance, remove, h]
  rfl

private theorem step_contains (value : Datum) :
    a.step (.contains value) = (.ok (.truth (0 < a.words.countP value.isNumber)), a) := by
  have hany : a.words.any value.isNumber = decide (0 < a.words.countP value.isNumber) := by
    rw [Bool.eq_iff_iff, List.any_eq_true, decide_eq_true_iff, List.countP_pos_iff]
  rw [step, advance, contains, hany]

/-- The laws that an array obeys as a sequence, whatever its words: those of the plain list of the words.
Every step is carried out place by place, and does what it does as a whole. -/
structure SequenceLaws (a : WordArray) : Prop where
  as_whole : ∀ s, InPlace.run (Edit.carryOut s) a = a.step s
  reverse : InPlace.run (Edit.carryOut .reverse) a = (.ok .nothing, { a with words := a.words.reverse })
  clear : InPlace.run (Edit.carryOut .clear) a = (.ok .nothing, { a with words := [] })
  extendSelf : (∀ limit ∈ a.limit, (a.size + a.size : Int) ≤ limit) →
    InPlace.run (Edit.carryOut .extendSelf) a = (.ok .nothing, { a with words := a.words ++ a.words })
  extendSelf_full : ∀ limit ∈ a.limit, limit < (a.size + a.size : Int) →
    InPlace.run (Edit.carryOut .extendSelf) a = (.error (.tooManyWords (a.size + a.size) limit), a)
  /-- A word goes to the nearest place there is, and taking it off there undoes this. -/
  insert : ∀ (i : Int) (word : Nat), word < 2 ^ 32 → -2 ^ 63 ≤ i → i < 2 ^ 63 →
    (∀ limit ∈ a.limit, (a.size + 1 : Int) ≤ limit) →
    ∃ (place : Nat) (a' : WordArray),
      (place : Int) = max 0 (min (a.size : Int) (if i < 0 then i + a.size else i)) ∧
      a' = { a with words := a.words.take place ++ word :: a.words.drop place } ∧
      InPlace.run (Edit.carryOut (.insert i (.int word))) a = (.ok .nothing, a') ∧
      InPlace.run (Edit.carryOut (.pop place)) a' = (.ok (.number word), a)
  insert_full : ∀ (i : Int) (word : Nat), word < 2 ^ 32 → ∀ limit ∈ a.limit, limit < (a.size + 1 : Int) →
    InPlace.run (Edit.carryOut (.insert i (.int word))) a = (.error (.tooManyWords (a.size + 1) limit), a)
  /-- An index beyond a machine word is refused. -/
  insert_beyond : ∀ (i : Int) (word : Nat), word < 2 ^ 32 → ¬ (-2 ^ 63 ≤ i ∧ i < 2 ^ 63) →
    (∀ limit ∈ a.limit, (a.size + 1 : Int) ≤ limit) →
    InPlace.run (Edit.carryOut (.insert i (.int word))) a = (.error .indexTooLong, a)
  pop : ∀ i : Int, -(a.size : Int) ≤ i → i < a.size → ∃ place word : Nat,
    (place : Int) = (if i < 0 then i + a.size else i) ∧ a.words[place]? = some word ∧
      InPlace.run (Edit.carryOut (.pop i)) a =
        (.ok (.number word), { a with words := a.words.take place ++ a.words.drop (place + 1) })
  pop_outside : ∀ i : Int, ¬ (-(a.size : Int) ≤ i ∧ i < a.size) →
    InPlace.run (Edit.carryOut (.pop i)) a = (.error .indexOutOfRange, a)
  /-- The least place between the bounds that holds the value is found. -/
  find : ∀ value start stop i,
    InPlace.run (Edit.carryOut (.find value start stop)) a = (.ok (.number i), a) ↔
      IsLeast (a.matching value (Index.bound a.size start) (stop.map (Index.bound a.size))) i
  find_absent : ∀ value start stop,
    InPlace.run (Edit.carryOut (.find value start stop)) a = (.error .valueAbsent, a) ↔
      a.matching value (Index.bound a.size start) (stop.map (Index.bound a.size)) = ∅
  remove : ∀ value i, InPlace.run (Edit.carryOut (.find value 0 none)) a = (.ok (.number i), a) →
    InPlace.run (Edit.carryOut (.remove value)) a =
      (.ok .nothing, { a with words := a.words.take i ++ a.words.drop (i + 1) })
  remove_absent : ∀ value fault, InPlace.run (Edit.carryOut (.find value 0 none)) a = (.error fault, a) →
    InPlace.run (Edit.carryOut (.remove value)) a = (.error fault, a)
  count : ∀ value, InPlace.run (Edit.carryOut (.count value)) a =
    (.ok (.number (a.words.countP value.isNumber)), a)
  contains : ∀ value, InPlace.run (Edit.carryOut (.contains value)) a =
    (.ok (.truth (0 < a.words.countP value.isNumber)), a)

/-- An array of words within its limit obeys the laws of a sequence. -/
theorem sequence_laws (ha : a.Valid) : SequenceLaws a where
  as_whole := Edit.run_carryOut ha
  reverse := Edit.run_carryOut ha .reverse
  clear := Edit.run_carryOut ha .clear
  extendSelf h := (Edit.run_carryOut ha .extendSelf).trans (step_extendSelf h)
  extendSelf_full limit hlimit h :=
    (Edit.run_carryOut ha .extendSelf).trans (step_extendSelf_full hlimit h)
  insert i word hword hlow hhigh hlimit := by
    have hplace : Index.insertion a.size i ≤ a.size := Nat.min_le_left ..
    have hinsert := step_insert (i := i) hword hlimit
    rw [if_pos ⟨hlow, hhigh⟩] at hinsert
    -- the second step is carried out on the array after the first, so that has to be valid, too
    have hvalid := (step_advances a (.insert i (.int word))).valid ha
    rw [hinsert] at hvalid
    refine ⟨_, _, Index.insertion_eq a.size i, rfl, ?_, ?_⟩
    · rw [Edit.run_carryOut ha, hinsert, insertIdx_eq_take_drop hplace]
    · rw [← insertIdx_eq_take_drop hplace, Edit.run_carryOut hvalid]
      exact step_pop_inserted hplace
  insert_full i word hword limit hlimit h :=
    (Edit.run_carryOut ha _).trans (step_insert_full hword hlimit h)
  insert_beyond i word hword hi hlimit := by
    rw [Edit.run_carryOut ha, step_insert hword hlimit, if_neg hi]
  pop i hlow hhigh := by
    obtain ⟨place, hplace⟩ := Option.ne_none_iff_exists'.mp fun hnone =>
      Index.position?_eq_none_iff.mp hnone ⟨hlow, hhigh⟩
    obtain ⟨hlt, heq⟩ := Index.position?_eq_some_iff.mp hplace
    have hword : a.words[place]? = some (a.words.get ⟨place, hlt⟩) := List.getElem?_eq_getElem hlt
    refine ⟨place, _, heq, hword, ?_⟩
    rw [Edit.run_carryOut ha, step_pop hplace hword, List.eraseIdx_eq_take_drop_succ]
  pop_outside i hi := by
    rw [Edit.run_carryOut ha]
    exact step_pop_outside (Index.position?_eq_none_iff.mpr hi)
  find value start stop i := by
    rw [Edit.run_carryOut ha, step_find_eq_ok_iff, ← index_eq_find]
    exact (a.finds_index value start stop).eq_ok_iff
  find_absent value start stop := by
    rw [Edit.run_carryOut ha, step_find_eq_error_iff, ← index_eq_find]
    exact (a.finds_index value start stop).eq_error_iff
  remove value i h := by
    rw [Edit.run_carryOut ha, step_find_eq_ok_iff] at h
    rw [Edit.run_carryOut ha, step_remove h, List.eraseIdx_eq_take_drop_succ]
  remove_absent value fault h := by
    rw [Edit.run_carryOut ha, step_find_eq_error_iff] at h
    rw [Edit.run_carryOut ha, step_remove_absent h]
  count value := Edit.run_carryOut ha (.count value)
  contains value := (Edit.run_carryOut ha (.contains value)).trans (step_contains value)

/-- An array that holds one word twice: the second is found from the end, the first is removed, a word
goes to the front from far before it, and there is no room for the words twice over. -/
theorem sequence_laws_repeated_word :
    let a : WordArray := ⟨[7, 8, 7, 9], some 5⟩
    a.Valid ∧
    InPlace.run (Edit.carryOut .reverse) a = (.ok .nothing, ⟨[9, 7, 8, 7], some 5⟩) ∧
    InPlace.run (Edit.carryOut .extendSelf) a = (.error (.tooManyWords 8 5), a) ∧
    InPlace.run (Edit.carryOut (.find (.int 7) (-3) (some (-1)))) a = (.ok (.number 2), a) ∧
    InPlace.run (Edit.carryOut (.find (.int 7) (-3) (some (-2)))) a = (.error .valueAbsent, a) ∧
    InPlace.run (Edit.carryOut (.remove (.int 7))) a = (.ok .nothing, ⟨[8, 7, 9], some 5⟩) ∧
    InPlace.run (Edit.carryOut (.insert (-2 ^ 63) (.int 0))) a =
      (.ok .nothing, ⟨[0, 7, 8, 7, 9], some 5⟩) := by
  intro a
  have ha : a.Valid := by
    refine ⟨by decide, ?_⟩
    rintro _ ⟨⟩
    decide
  have laws := sequence_laws ha
  have hfind : InPlace.run (Edit.carryOut (.find (.int 7) 0 none)) a = (.ok (.number 0), a) :=
    (laws.as_whole _).trans (by decide)
  refine ⟨ha, laws.reverse, laws.extendSelf_full 5 rfl (by decide), ?_, ?_, laws.remove _ 0 hfind, ?_⟩
  · exact (laws.as_whole _).trans (by decide)
  · exact (laws.as_whole _).trans (by decide)
  · exact (laws.as_whole _).trans (by decide)

/-- An index before the first place is not always moved to it: the machine word has to hold it. -/
theorem insert_before_machine_word :
    let a : WordArray := ⟨[7], none⟩
    let i : Int := -2 ^ 63 - 1
    a.Valid ∧ max 0 (min (a.size : Int) (i + a.size)) = 0 ∧
      InPlace.run (Edit.carryOut (.insert i (.int 5))) a = (.error .indexTooLong, a) ∧
      InPlace.run (Edit.carryOut (.insert i (.int 5))) a ≠ (.ok .nothing, ⟨[5, 7], none⟩) := by
  intro a i
  have ha : a.Valid := by
    refine ⟨by decide, ?_⟩
    rintro _ ⟨⟩
  have hrefused : InPlace.run (Edit.carryOut (.insert i (.int 5))) a = (.error .indexTooLong, a) :=
    (Edit.run_carryOut ha _).trans (by decide)
  refine ⟨ha, by decide, hrefused, ?_⟩
  rw [hrefused]
  decide

end WordArray
end LuaBytecode
