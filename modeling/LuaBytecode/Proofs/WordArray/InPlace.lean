import LuaBytecode.Proofs.WordArray.Construction

/-! Edits in place. An edit is a run of checks and changes to one array, and what it changed stays when
a later part fails; the edits that are made of others change the array several times. Carried out in
place every step does what it does as a whole, so none leaves an array half edited. -/
namespace LuaBytecode

theorem WordArray.eq_of_look {α : Type} {a a' : WordArray} {look : Except Fault α} {f : α → Reply}
    {reply : Reply} (h : (do return (f (← look), a)) = Except.ok (reply, a')) : a' = a := by
  obtain ⟨_, _, h⟩ := Outcome.bind_eq_ok_iff.mp h
  cases h
  rfl

/-- A computation on an array. -/
abbrev Edit := InPlace WordArray

namespace Edit
open InPlace
variable {α : Type}

/-- Looks at the array. -/
def look (f : WordArray → Except Fault α) : Edit α := do
  let a ← get
  f a

/-- Changes the words. -/
def alter (f : List Nat → List Nat) : Edit Unit := modify fun a => { a with words := f a.words }

def getIndex (index : Int) : Edit Nat := look (·.get index)

def setIndex (index : Int) (value : Datum) : Edit Unit := do
  let word ← Word.ofDatum value
  let i ← look (·.position index)
  alter (·.set i word)

def setSlice (s : Slice) (value : Datum) : Edit Unit := do
  let words ← Word.ofIterable value
  WordArray.checkStep s
  let size ← look fun a => .ok a.size
  let selected := s.count size
  if !s.isPlain && words.length != selected then
    throw (.sliceSize words.length selected)
  look (·.checkLength (size - selected + words.length))
  alter fun old => if s.isPlain then s.splice old words else s.overwrite old words

def deleteIndex (index : Int) : Edit Unit := do
  let i ← look (·.position index)
  alter (·.eraseIdx i)

def deleteSlice (s : Slice) : Edit Unit := do
  WordArray.checkStep s
  alter s.drop

def insert (index : Int) (value : Datum) : Edit Unit := do
  let word ← Word.ofDatum value
  look fun a => a.checkLength (a.size + 1)
  if !Index.fitsWord index then
    throw .indexTooLong
  alter fun words => words.insertIdx (Index.insertion words.length index) word

def extend (value : Datum) : Edit Unit := do
  let words ← Word.ofIterable value
  look fun a => a.checkLength (a.size + words.length)
  alter (· ++ words)

/-! Edits that are made of others. -/

/-- Inserts after the last word. The length of the array is an index that always fits. -/
def append (value : Datum) : Edit Unit := do
  let word ← Word.ofDatum value
  look fun a => a.checkLength (a.size + 1)
  alter fun words => words.insertIdx words.length word

/-- Extends the array by the words that it holds, which are checked like any others. -/
def extendSelf : Edit Unit := do
  let words ← look fun a => .ok a.words
  extend (.list (words.map fun w : Nat => .int w))

def pop (index : Int) : Edit Nat := do
  let word ← getIndex index
  deleteIndex index
  return word

def remove (value : Datum) : Edit Unit := do
  let i ← look (·.find value 0 none)
  deleteIndex i

/-- Exchanges two words by two assignments, each of which checks its word. -/
def swap (i j : Nat) : Edit Unit := do
  let right ← getIndex j
  let left ← getIndex i
  setIndex i (.int right)
  setIndex j (.int left)

/-- Exchanges each word of the front half with the one as far from the end. -/
def reverse : Edit Unit := do
  let n ← look fun a => .ok a.size
  forM (List.range (n / 2)) fun i => swap i (n - i - 1)

/-! What becomes of the array, part by part. -/

variable {a : WordArray}

@[simp] theorem run_look (f : WordArray → Except Fault α) (a : WordArray) :
    run (look f) a = (f a, a) := rfl

@[simp] theorem run_alter (f : List Nat → List Nat) (a : WordArray) :
    run (alter f) a = (.ok (), { a with words := f a.words }) := rfl

/-- The outcome of a change as a whole: the array it gives, or its fault and the array as it was. -/
def commit (a : WordArray) : Except Fault WordArray → Except Fault Unit × WordArray
  | .ok a' => (.ok (), a')
  | .error fault => (.error fault, a)

/-! The edits that check everything first and then change the array once. -/

private theorem run_setIndex (index : Int) (value : Datum) (a : WordArray) :
    run (setIndex index value) a = commit a (a.set index value) := by
  rw [setIndex, run_bind, run_lift, WordArray.set]
  cases Word.ofDatum value with
  | error fault => rfl
  | ok word =>
    simp only [run_bind, run_look, run_alter]
    cases a.position index <;> rfl

private theorem run_deleteIndex (index : Int) (a : WordArray) :
    run (deleteIndex index) a = commit a (a.delete index) := by
  rw [deleteIndex, run_bind, run_look, WordArray.delete]
  cases a.position index <;> rfl

private theorem run_deleteSlice (s : Slice) (a : WordArray) :
    run (deleteSlice s) a = commit a (a.deleteSlice s) := by
  rw [deleteSlice, run_bind, run_lift, WordArray.deleteSlice]
  cases WordArray.checkStep s <;> rfl

private theorem run_setSlice (s : Slice) (value : Datum) (a : WordArray) :
    run (setSlice s value) a = commit a (a.setSlice s value) := by
  rw [setSlice, run_bind, run_lift, WordArray.setSlice]
  cases Word.ofIterable value with
  | error fault => rfl
  | ok words =>
    simp only [run_bind, run_lift, run_look]
    cases WordArray.checkStep s with
    | error fault => rfl
    | ok _ =>
      simp only [Outcome.ok_bind, run_ite, run_throw, run_bind, run_look, run_alter]
      split
      · rfl
      · cases a.checkLength (a.size - s.count a.size + words.length) <;> rfl

private theorem run_insert (index : Int) (value : Datum) (a : WordArray) :
    run (insert index value) a = commit a (a.insert index value) := by
  rw [insert, run_bind, run_lift, WordArray.insert]
  cases Word.ofDatum value with
  | error fault => rfl
  | ok word =>
    simp only [run_bind, run_look, Outcome.ok_bind]
    cases a.checkLength (a.size + 1) with
    | error fault => rfl
    | ok _ =>
      simp only [Outcome.ok_bind, run_ite, run_throw, run_bind, run_alter]
      split <;> rfl

private theorem run_extend (value : Datum) (a : WordArray) :
    run (extend value) a = commit a (a.extend value) := by
  rw [extend, run_bind, run_lift, WordArray.extend]
  cases Word.ofIterable value with
  | error fault => rfl
  | ok words =>
    simp only [run_bind, run_look, run_alter, Outcome.ok_bind, WordArray.append]
    cases a.checkLength (a.size + words.length) <;> rfl

private theorem run_append (value : Datum) (a : WordArray) :
    run (append value) a = commit a (a.push value) := by
  rw [append, run_bind, run_lift, WordArray.push]
  cases Word.ofDatum value with
  | error fault => rfl
  | ok word =>
    simp only [run_bind, run_look, run_alter, Outcome.ok_bind, WordArray.append,
      List.insertIdx_length_self]
    cases a.checkLength (a.size + 1) <;> rfl

/-! The edits that change the array several times or go through others. -/

private theorem run_extendSelf (ha : a.Valid) : run extendSelf a = commit a (a.append a.words) := by
  have hwords : Word.ofIterable (.list (a.words.map fun w : Nat => .int w)) = .ok a.words :=
    Word.ofIterable_eq_ok_iff.mpr ⟨ha.lt_bound, rfl⟩
  have hlook : run (look fun a => .ok a.words) a = (.ok a.words, a) := rfl
  rw [extendSelf, run_bind_ok hlook, run_extend, WordArray.extend, hwords, Outcome.ok_bind]

theorem position_natCast {i : Nat} (hi : i < a.size) : a.position i = .ok i := by
  rw [WordArray.position, Index.position?, if_pos ⟨Int.natCast_nonneg i, Int.ofNat_lt.mpr hi⟩]
  rfl

theorem get_natCast {i : Nat} (hi : i < a.words.length) : a.get i = .ok a.words[i] := by
  rw [WordArray.get, Index.get?, Index.position?,
    if_pos ⟨Int.natCast_nonneg i, Int.ofNat_lt.mpr hi⟩]
  simp [hi]

private theorem run_pop (index : Int) (a : WordArray) :
    run (pop index) a =
      match a.pop index with
      | .ok (word, a') => (.ok word, a')
      | .error fault => (.error fault, a) := by
  rw [pop, getIndex, run_bind, run_look, WordArray.pop]
  cases a.get index with
  | error fault => rfl
  | ok word =>
    simp only [run_bind, run_deleteIndex]
    cases a.delete index <;> rfl

/-- What is found is a place of the array. -/
theorem find_lt {value : Datum} {start : Int} {stop : Option Int} {i : Nat}
    (h : a.find value start stop = .ok i) : i < a.size := by
  rw [WordArray.find] at h
  dsimp only at h
  split at h
  · rename_i word place hfind
    split_ifs at h
    cases h
    have hmem := List.mem_of_mem_drop (List.mem_of_find?_eq_some hfind)
    have hlt := (List.mem_zipIdx hmem).2.1
    rwa [Nat.zero_add] at hlt
  · cases h

theorem run_remove (value : Datum) (a : WordArray) :
    run (remove value) a = commit a (a.remove value) := by
  rw [remove, run_bind, run_look, WordArray.remove]
  cases hfind : a.find value 0 none with
  | error fault => rfl
  | ok i =>
    simp only [run_deleteIndex, WordArray.delete, position_natCast (find_lt hfind)]

private theorem run_setIndex_natCast {i word : Nat} (hi : i < a.size) (hword : word < Word.bound) :
    run (setIndex i (.int word)) a = (.ok (), { a with words := a.words.set i word }) := by
  rw [run_setIndex, WordArray.set, Word.ofDatum_natCast hword, Outcome.ok_bind, position_natCast hi]
  rfl

private theorem run_getIndex_natCast {i : Nat} (hi : i < a.words.length) :
    run (getIndex i) a = (.ok a.words[i], a) := by
  rw [getIndex, run_look, get_natCast hi]

private theorem run_swap {i j : Nat} (hi : i < a.words.length) (hj : j < a.words.length)
    (hleft : a.words[i] < Word.bound) (hright : a.words[j] < Word.bound) :
    run (swap i j) a =
      (.ok (), { a with words := (a.words.set i a.words[j]).set j a.words[i] }) := by
  have hsize : j < WordArray.size { a with words := a.words.set i a.words[j] } := by
    simpa [WordArray.size] using hj
  rw [swap, run_bind_ok (run_getIndex_natCast hj), run_bind_ok (run_getIndex_natCast hi),
    run_bind_ok (run_setIndex_natCast hi hright), run_setIndex_natCast hsize hleft]

/-- The words after the exchange of the `k` outermost pairs: near the ends those of the reverse. -/
def swapped (words : List Nat) (k : Nat) : List Nat :=
  words.mapIdx fun j word =>
    if j < k ∨ words.length - k ≤ j then words.getD (words.length - 1 - j) word else word

theorem length_swapped (words : List Nat) (k : Nat) : (swapped words k).length = words.length := by
  simp [swapped]

theorem getElem_swapped {words : List Nat} {k j : Nat} (hj : j < (swapped words k).length) :
    (swapped words k)[j] =
      if j < k ∨ words.length - k ≤ j then words.getD (words.length - 1 - j) 0
      else words.getD j 0 := by
  rw [length_swapped] at hj
  have hmirror : words.length - 1 - j < words.length := by omega
  simp [swapped, hj, hmirror]

private theorem swapped_zero (words : List Nat) : swapped words 0 = words := by
  apply List.ext_getElem (length_swapped words 0)
  intro j hj hj'
  rw [getElem_swapped hj, if_neg (by omega)]
  simp [hj']

private theorem swapped_half (words : List Nat) : swapped words (words.length / 2) = words.reverse := by
  apply List.ext_getElem
  · rw [length_swapped, List.length_reverse]
  intro j hj hj'
  rw [List.length_reverse] at hj'
  have hmirror : words.length - 1 - j < words.length := by omega
  rw [getElem_swapped hj, List.getElem_reverse]
  split_ifs with hends
  · simp [hmirror]
  · -- only the word in the middle is left, which is its own mirror image
    have hmiddle : words.length - 1 - j = j := by omega
    simp [hmiddle, hj']

/-- The exchange of one more pair. -/
theorem swapped_succ {words : List Nat} {k : Nat} (hk : k < words.length / 2) :
    ((swapped words k).set k (words.getD (words.length - k - 1) 0)).set (words.length - k - 1)
      (words.getD k 0) = swapped words (k + 1) := by
  apply List.ext_getElem
  · simp [length_swapped]
  intro j hj hj'
  rw [length_swapped] at hj'
  rw [List.getElem_set, List.getElem_set, getElem_swapped, getElem_swapped]
  by_cases hback : words.length - k - 1 = j
  · have hmirror : words.length - 1 - j = k := by omega
    rw [if_pos hback, if_pos (by omega), hmirror]
  by_cases hfront : k = j
  · have hmirror : words.length - 1 - j = words.length - k - 1 := by omega
    rw [if_neg hback, if_pos hfront, if_pos (by omega), hmirror]
  have hsame : (j < k ∨ words.length - k ≤ j) ↔ (j < k + 1 ∨ words.length - (k + 1) ≤ j) := by omega
  simp only [if_neg hback, if_neg hfront, hsame]

/-- Every word of the reversal in progress is one of the words. -/
theorem getD_lt (ha : a.Valid) {j : Nat} (hj : j < a.words.length) : a.words.getD j 0 < Word.bound := by
  rw [List.getD_eq_getElem _ _ hj]
  exact ha.lt_bound _ (List.getElem_mem hj)

private theorem run_swaps (ha : a.Valid) {k : Nat} (hk : k ≤ a.words.length / 2) :
    run (forM (List.range k) fun i => swap i (a.words.length - i - 1)) a =
      (.ok (), { a with words := swapped a.words k }) := by
  induction k with
  | zero =>
    rw [swapped_zero]
    rfl
  | succ k ih =>
    have hlen := length_swapped a.words k
    have hi : k < (swapped a.words k).length := by omega
    have hj : a.words.length - k - 1 < (swapped a.words k).length := by omega
    -- the words about to be exchanged are still where they were
    have hleft : (swapped a.words k)[k] = a.words.getD k 0 := by
      rw [getElem_swapped, if_neg (by omega)]
    have hright : (swapped a.words k)[a.words.length - k - 1] =
        a.words.getD (a.words.length - k - 1) 0 := by
      rw [getElem_swapped, if_neg (by omega)]
    have hswap : run (swap k (a.words.length - k - 1)) { a with words := swapped a.words k } =
        (.ok (), { a with words := swapped a.words (k + 1) }) := by
      have hleft_lt := getD_lt ha (show k < a.words.length by omega)
      have hright_lt := getD_lt ha (show a.words.length - k - 1 < a.words.length by omega)
      rw [← hleft] at hleft_lt
      rw [← hright] at hright_lt
      rw [run_swap hi hj hleft_lt hright_lt]
      simp only [hleft, hright, swapped_succ hk]
    rw [List.range_succ, List.forM_append, run_bind_ok (ih (by omega)), List.forM_cons,
      run_bind_ok hswap]
    rfl

private theorem run_reverse (ha : a.Valid) :
    run reverse a = commit a (.ok { a with words := a.words.reverse }) := by
  have hlook : run (look fun a => .ok a.size) a = (.ok a.size, a) := rfl
  rw [reverse, run_bind_ok hlook, ← swapped_half]
  exact run_swaps ha (Nat.le_refl _)

/-- The last word is taken off, if there is one. -/
theorem run_pop_last (words : List Nat) (word : Nat) (limit : Option Int) :
    run (pop (-1)) ⟨words ++ [word], limit⟩ = (.ok word, ⟨words, limit⟩) := by
  have hlast : Index.position? (words ++ [word]).length (-1) = some words.length := by
    have hplace : (-1 + ((words.length + 1 : Nat) : Int)).toNat = words.length := by omega
    rw [List.length_append, List.length_singleton, Index.position?, if_neg (by omega),
      if_pos (by omega), hplace]
  rw [run_pop, WordArray.pop, WordArray.get, WordArray.delete, WordArray.position, WordArray.size,
    Index.get?, hlast]
  simp [bind, Except.bind, pure, Except.pure, List.eraseIdx_append_of_length_le]

private theorem run_pop_nil (limit : Option Int) :
    run (pop (-1)) ⟨[], limit⟩ = (.error .indexOutOfRange, ⟨[], limit⟩) := rfl

private theorem size_lt_of_run_pop {a' : WordArray} {word : Nat} (h : run (pop (-1)) a = (.ok word, a')) :
    a'.size < a.size := by
  obtain ⟨words, limit⟩ := a
  rcases List.eq_nil_or_concat' words with rfl | ⟨words, last, rfl⟩
  · rw [run_pop_nil] at h
    cases h
  · rw [run_pop_last] at h
    cases h
    simp [WordArray.size]

/-- Takes words off the end until there is none; that fault ends the loop. -/
def popAll (a : WordArray) : Except Fault Unit × WordArray :=
  match h : run (pop (-1)) a with
  | (.ok _, a') =>
    have : a'.size < a.size := size_lt_of_run_pop h
    popAll a'
  | (.error fault, a') => if fault.category = .index then (.ok (), a') else (.error fault, a')
termination_by a.size

def clear : Edit Unit := ExceptT.mk popAll

private theorem run_clear (a : WordArray) : run clear a = commit a (.ok { a with words := [] }) := by
  show popAll a = (.ok (), { a with words := [] })
  obtain ⟨words, limit⟩ := a
  induction words using List.reverseRecOn with
  | nil =>
    rw [popAll]
    split
    · rename_i hpop
      rw [run_pop_nil] at hpop
      cases hpop
    · rename_i hpop
      rw [run_pop_nil] at hpop
      cases hpop
      rfl
  | append_singleton words word ih =>
    rw [popAll]
    split
    · rename_i hpop
      rw [run_pop_last] at hpop
      cases hpop
      exact ih
    · rename_i hpop
      rw [run_pop_last] at hpop
      cases hpop

/-- A step, carried out on the array in place. -/
def perform : WordArray.Step → Edit WordArray.Reply
  | .set (.index i) value => do
    setIndex i value
    return .nothing
  | .set (.slice s) value => do
    setSlice s value
    return .nothing
  | .delete (.index i) => do
    deleteIndex i
    return .nothing
  | .delete (.slice s) => do
    deleteSlice s
    return .nothing
  | .insert i value => do
    insert i value
    return .nothing
  | .append value => do
    append value
    return .nothing
  | .extend value => do
    extend value
    return .nothing
  | .extendSelf => do
    extendSelf
    return .nothing
  | .pop i => do return .number (← pop i)
  | .remove value => do
    remove value
    return .nothing
  | .reverse => do
    reverse
    return .nothing
  | .clear => do
    clear
    return .nothing
  -- every other step only looks at the array
  | s => look fun a => do return (← a.advance s).1

theorem run_edit_eq_step {edit : Edit Unit} {outcome : Except Fault WordArray} {s : WordArray.Step}
    (hedit : run edit a = commit a outcome)
    (hstep : a.advance s = (do return (.nothing, ← outcome))) :
    run (do edit; return WordArray.Reply.nothing) a = a.step s := by
  rw [run_bind, hedit, WordArray.step, hstep]
  cases outcome <;> rfl

private theorem run_look_eq_step {s : WordArray.Step} (hperform : perform s = look fun a => do
    return (← a.advance s).1) (hsame : ∀ reply a', a.advance s = .ok (reply, a') → a' = a) :
    run (perform s) a = a.step s := by
  rw [hperform, run_look, WordArray.step]
  cases hadvance : a.advance s with
  | error fault => rfl
  | ok result =>
    obtain ⟨reply, a'⟩ := result
    rw [hsame reply a' hadvance]
    rfl

/-- In place every step does what it does as a whole. -/
theorem run_perform (ha : a.Valid) (s : WordArray.Step) : run (perform s) a = a.step s := by
  cases s with
  | set key value =>
    cases key with
    | index i => exact run_edit_eq_step (run_setIndex i value a) rfl
    | slice s => exact run_edit_eq_step (run_setSlice s value a) rfl
  | delete key =>
    cases key with
    | index i => exact run_edit_eq_step (run_deleteIndex i a) rfl
    | slice s => exact run_edit_eq_step (run_deleteSlice s a) rfl
  | insert i value => exact run_edit_eq_step (run_insert i value a) rfl
  | append value => exact run_edit_eq_step (run_append value a) rfl
  | extend value => exact run_edit_eq_step (run_extend value a) rfl
  | extendSelf => exact run_edit_eq_step (run_extendSelf ha) rfl
  | pop i =>
    rw [perform, run_bind, run_pop, WordArray.step, WordArray.advance]
    cases a.pop i <;> rfl
  | remove value => exact run_edit_eq_step (run_remove value a) rfl
  | reverse => exact run_edit_eq_step (run_reverse ha) rfl
  | clear => exact run_edit_eq_step (run_clear a) rfl
  | get key => cases key <;> exact run_look_eq_step rfl fun reply a' h => WordArray.eq_of_look h
  | find value start stop => exact run_look_eq_step rfl fun reply a' h => WordArray.eq_of_look h
  | equalsArray value => exact run_look_eq_step rfl fun reply a' h => WordArray.eq_of_look h
  | _ => rfl

end Edit
end LuaBytecode
